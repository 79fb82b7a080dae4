import Asm18.Text.Basic

/-! A target of output that may be short of room. It takes a write whole or refuses it whole, and
a refused write uses up no room. -/
namespace Asm18

structure Sink where
  /-- How many more bytes are taken, if there is a bound. -/
  room : Option Nat
  /-- The reason given for a refusal. -/
  refusal : Text
  /-- The writes taken so far, the newest first. -/
  chunks : List Text
  /-- Whether it is a terminal. -/
  terminal : Bool

namespace Sink

def unbounded : Sink := ⟨none,[],[],false⟩

def bounded (room : Nat) (refusal : Text) : Sink := ⟨some room,refusal,[],false⟩

/-- Everything taken so far, in order. -/
def text (s : Sink) : Text := s.chunks.reverse.flatten

@[simp] theorem text_unbounded : unbounded.text = [] := rfl

@[simp] theorem text_bounded (room : Nat) (refusal : Text) : (bounded room refusal).text = [] := rfl

def write (s : Sink) (t : Text) : Except Text Sink :=
  match s.room with
  | none => .ok { s with chunks := t :: s.chunks }
  | some n =>
    if t.length ≤ n then .ok { s with room := some (n - t.length), chunks := t :: s.chunks }
    else .error s.refusal

/-- Writes one text after the other, up to the first that is refused. -/
def writeAll (s : Sink) : List Text → Sink × Except Text Unit
  | [] => (s,.ok ())
  | t :: ts =>
    match s.write t with
    | .ok s' => s'.writeAll ts
    | .error reason => (s,.error reason)

end Sink
end Asm18
