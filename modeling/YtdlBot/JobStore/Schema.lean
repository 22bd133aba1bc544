import Mathlib
import YtdlBot.Framework.Table

/-!
# Rows of the durable inbox

The tables of the SQLite job database (schema version 4) and the values the store hands out.
Clock readings come from an arbitrary linear order with an addition, so nothing depends on how
`time.time` rounds; `float("inf")` is the top element added to it. A JSON column holds the
value its text decodes to.
-/

namespace YtdlBot.JobStore

open Framework

inductive JobState where
  | accepted
  | running
  | checkpointed
  | completed
  | failed
deriving DecidableEq, Repr

inductive DeliveryOutcome where
  | success
  | failed
  | uncertain
deriving DecidableEq, Repr

/-- A value of `json.loads`; `float` keeps the literal. -/
inductive Json where
  | null
  | bool (b : Bool)
  | int (n : Int)
  | float (literal : String)
  | str (s : String)
  | arr (items : List Json)
  | obj (fields : List (String × Json))

/-- A Python dict with string keys, in insertion order. -/
abbrev JsonObject := List (String × Json)

namespace JsonObject

def get (o : JsonObject) (key : String) : Option Json :=
  (o.find? fun field => field.1 = key).map Prod.snd

def set (o : JsonObject) (key : String) (value : Json) : JsonObject :=
  if o.any fun field => field.1 = key then
    o.map fun field => if field.1 = key then (key, value) else field
  else o ++ [(key, value)]

theorem get_set (o : JsonObject) (key : String) (value : Json) :
    (set o key value).get key = some value := by
  unfold set
  split
  · rename_i hany
    induction o with
    | nil => simp at hany
    | cons field o ih =>
      by_cases hf : field.1 = key
      · simp [get, hf]
      · have hrest : (o.any fun field => field.1 = key) = true := by simpa [hf] using hany
        simpa [get, hf] using ih hrest
  · rename_i hnone
    have hfind : o.find? (fun field => field.1 = key) = none := by
      rw [List.find?_eq_none]
      intro field hfield hkey
      exact hnone (List.any_eq_true.mpr ⟨field, hfield, hkey⟩)
    simp [get, List.find?_append, hfind]

end JsonObject

/-- `str(update_id)`. -/
def str (n : Int) : String := n.repr

theorem str_injective {m n : Int} (h : str m = str n) : m = n := Int.repr_injective h

theorem str_ne_retry (n : Int) (token : String) : str n ≠ "retry:" ++ token := by
  intro h
  have hint : ("retry:" ++ token).isInt = true := h ▸ Int.isInt_repr n
  rcases String.isInt_iff.mp hint with hnat | ⟨t, ht, -⟩
  · have hdigit := (String.isNat_iff.mp hnat).2.1 'r' (by simp)
    simp at hdigit
  · have hhead := congrArg (fun s => s.toList.head?) ht
    simp at hhead

variable {τ : Type}

/-- A row of `jobs`. The only `INSERT` writes `job_id = str(update_id)` and no `UPDATE` touches
either column, so the primary key is computed from `updateId`. -/
structure JobRow (τ : Type) where
  updateId : Int
  payload : JsonObject
  state : JobState
  ownerId : Option String
  claimExpiresAt : Option τ
  checkpoint : Option JsonObject
  error : Option String
  payloadExpiresAt : WithTop τ
  acceptedAt : τ
  updatedAt : τ

def JobRow.jobId (r : JobRow τ) : String := str r.updateId

/-- A row of `deliveries`, keyed by job and item. -/
structure DeliveryRow (τ : Type) where
  jobId : String
  itemKey : String
  outcome : DeliveryOutcome
  deliveryId : Option String
  updatedAt : τ
  finalized : Bool
  ownerId : Option String

def DeliveryRow.key (d : DeliveryRow τ) : String × String := (d.jobId, d.itemKey)

/-- The single row of `worker_lease`. -/
structure WorkerLease (τ : Type) where
  ownerId : String
  expiresAt : τ

/-- The contents of the database file; `healthProbe` is the generation of `health_probe`. -/
structure Store (τ : Type) where
  jobs : Table (JobRow.jobId (τ := τ))
  deliveries : Table (DeliveryRow.key (τ := τ))
  workerLease : Option (WorkerLease τ)
  healthProbe : Nat

/-- The database `_initialize_sync` creates. -/
def Store.initial : Store τ := ⟨Table.empty, Table.empty, none, 0⟩

structure JobRecord where
  id : String
  updateId : Int
  payload : JsonObject
  state : JobState
  ownerId : Option String
  checkpoint : Option JsonObject
  error : Option String

structure AcceptedUpdate where
  job : JobRecord
  inserted : Bool

/-- `_row_to_job`. -/
def rowToJob (r : JobRow τ) : JobRecord where
  id := r.jobId
  updateId := r.updateId
  payload := r.payload
  state := r.state
  ownerId := r.ownerId
  checkpoint := r.checkpoint
  error := r.error

/-- What a caller sees raised; an SQLite error of any kind is one value. -/
inductive StoreError where
  | typeError (message : String)
  | valueError (message : String)
  | overflowError
  | runtimeError (message : String)
  | sqliteError
deriving DecidableEq, Repr

/-- `finalized = 1 AND outcome IN ('success', 'uncertain')`: nothing may overwrite it. -/
def DeliveryRow.isFinal (d : DeliveryRow τ) : Bool :=
  d.finalized && d.outcome ≠ .failed

theorem DeliveryRow.isFinal_iff {d : DeliveryRow τ} :
    d.isFinal = true ↔ d.finalized = true ∧ d.outcome ≠ .failed := by
  simp [isFinal]

theorem JobRow.jobId_eq {r r' : JobRow τ} : r.jobId = r'.jobId ↔ r.updateId = r'.updateId :=
  ⟨str_injective, fun h => by rw [jobId, jobId, h]⟩

end YtdlBot.JobStore
