import EntanglementRs.Packet
import EntanglementRs.Error

/-!
# Calls across the C boundary

A wrapper of `EntServer` or `EntClient` makes at most one C call.  It is
modelled as the call it makes, with the arguments C receives, and the function
that turns what C returns into the wrapper's result.
-/

namespace EntanglementRs

/-- What a C call hands back: its return value and its out-parameters.  A call
uses only those it declares. -/
structure Reply where
  code : Int32 := 0
  handle : ℕ := 1
  msgId : UInt32 := 0
  header : RawPacketHeader := ⟨0, 0, 0, 0, 0, 0, 0, 0, 0, 0, 0⟩

/-- One wrapper: it returns or panics without calling C, or makes one call. -/
inductive FFI (Call : Type) (α : Type) where
  | done (a : α)
  | panics
  | call (c : Call) (finish : Reply → Option α)

namespace FFI

variable {Call α β : Type}

def calls : FFI Call α → List Call
  | .done _ => []
  | .panics => []
  | .call c _ => [c]

def result : FFI Call α → Reply → Option α
  | .done a, _ => some a
  | .panics, _ => none
  | .call _ finish, r => finish r

/-- `let _ = …`: the caller drops the result. -/
def ignore : FFI Call α → FFI Call Unit
  | .done _ => .done ()
  | .panics => .panics
  | .call c finish => .call c fun r => (finish r).map fun _ => ()

def void (c : Call) : FFI Call Unit :=
  .call c fun _ => some ()

@[simp] theorem calls_ignore (f : FFI Call α) : f.ignore.calls = f.calls := by
  cases f <;> rfl

@[simp] theorem calls_void (c : Call) : (void c).calls = [c] := rfl

end FFI

end EntanglementRs
