import Mathlib.Algebra.Order.Group.Int
import G3Mod.Binder.Transaction.Lemmas.Basic

/-!
# The error codes of a thread

The slots `return_error` and `return_error2` of one thread: `binder_send_failed_reply` and failed transactions set
them, and `binder_thread_read` writes them to the user's buffer. A read that finds no room or no error waits; back at
the label `retry` it is like another read that has consumed one word.
-/

namespace G3Mod.Binder.Errors

open Transaction (ReturnError Thread)

structure Slots where
  returnError : ReturnError
  returnError2 : ReturnError
  deriving DecidableEq, Repr

/-- The arguments of `binder_thread_read`, and which of its three `put_user` fail. -/
structure Read where
  size : Int
  consumed : Int
  faultNoop : Bool
  fault2 : Bool
  fault : Bool
  deriving DecidableEq, Repr

structure Write where
  offset : Int
  code : ReturnError
  deriving DecidableEq, Repr

def word : Int := 4

def Read.ptr (r : Read) : Int := if r.consumed = 0 then r.consumed + word else r.consumed

/-- What `binder_send_failed_reply` does to the slots of the thread that it ends at. -/
def Slots.sendFailedReply (code : ReturnError) (s : Slots) : Slots :=
  let s := if s.returnError ≠ .ok ∧ s.returnError2 = .ok then ⟨.ok, s.returnError⟩ else s
  if s.returnError = .ok then { s with returnError := code } else s

/-- The part of `binder_thread_read` that writes the errors. -/
def Slots.read (r : Read) (s : Slots) : List Write × Slots :=
  if r.consumed = 0 ∧ r.faultNoop then ([], s)
  else if s.returnError ≠ .ok ∧ r.ptr < r.size then
    if s.returnError2 ≠ .ok then
      if r.fault2 then ([], s)
      else if r.ptr + word = r.size then ([⟨r.ptr, s.returnError2⟩], s)
      else if r.fault then ([⟨r.ptr, s.returnError2⟩], { s with returnError2 := .ok })
      else ([⟨r.ptr, s.returnError2⟩, ⟨r.ptr + word, s.returnError⟩], ⟨.ok, .ok⟩)
    else if r.fault then ([], s)
    else ([⟨r.ptr, s.returnError⟩], { s with returnError := .ok })
  else ([], s)

/-! ## The machine -/

inductive Op where
  | sendFailedReply (code : ReturnError)
  | fail (code : ReturnError)
  | read (r : Read)
  deriving DecidableEq, Repr

structure Out where
  set : List ReturnError
  writes : List Write
  deriving DecidableEq, Repr

inductive Bug where
  /-- `BUG_ON(thread->return_error != BR_OK)` -/
  | returnErrorSet
  deriving DecidableEq, Repr

/-- `binder_send_failed_reply` drops the code if both slots are in use. -/
def Slots.Takes (s : Slots) : Prop := s.returnError = .ok ∨ s.returnError2 = .ok

instance {s : Slots} : Decidable s.Takes := inferInstanceAs (Decidable (_ ∨ _))

def exec (s : Slots) : Op → Except Bug (Out × Slots)
  | .sendFailedReply code => .ok (⟨if s.Takes then [code] else [], []⟩, s.sendFailedReply code)
  | .fail code =>
    if s.returnError ≠ .ok then .error .returnErrorSet
    else .ok (⟨[code], []⟩, { s with returnError := code })
  | .read r => .ok (⟨[], (s.read r).1⟩, (s.read r).2)

/-- A transaction is only begun without a pending error. -/
def Op.Permitted (s : Slots) : Op → Prop
  | .sendFailedReply code => code ≠ .ok
  | .fail code => code ≠ .ok ∧ s.returnError = .ok
  | .read _ => True

instance {s : Slots} {op : Op} : Decidable (op.Permitted s) := by
  cases op <;> unfold Op.Permitted <;> infer_instance

def machine : Lib.Machine Slots Op Out Bug where
  init s := s = ⟨.ok, .ok⟩
  enabled s op := op.Permitted s
  exec := exec

instance {s : Slots} {op : Op} : Decidable (machine.enabled s op) := inferInstanceAs (Decidable (op.Permitted s))

def Slots.pending (s : Slots) : List ReturnError := [s.returnError2, s.returnError].filter (· ≠ .ok)

def delivered : Op × Out → List ReturnError
  | (.read r, o) => (o.writes.filter fun w => 0 ≤ w.offset ∧ w.offset + word ≤ r.size).map Write.code
  | _ => []

def setCodes (es : List (Op × Out)) : List ReturnError := es.flatMap fun e => e.2.set

def deliveredCodes (es : List (Op × Out)) : List ReturnError := es.flatMap delivered

/-- If a read finds room and errors, there is room in the buffer for all of them. -/
def Op.Roomy (s : Slots) : Op → Prop
  | .read r => s.pending ≠ [] → r.ptr < r.size → 0 ≤ r.ptr ∧ r.ptr + word * s.pending.length ≤ r.size
  | _ => True

def roomyMachine : Lib.Machine Slots Op Out Bug :=
  { machine with enabled := fun s op => op.Permitted s ∧ op.Roomy s }

end G3Mod.Binder.Errors
