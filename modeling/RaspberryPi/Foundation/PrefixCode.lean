import Mathlib.Data.List.Basic

/-! # Prefix codes

A stream of code words can be taken apart in one way only when no code word is
the start of another. A reader that has taken some messages off the stream then
knows which message a further code word stands for. -/

namespace RaspberryPi

variable {α : Type u} {β : Type v}

/-- No code word is empty or the start of another one. -/
structure PrefixCode (encode : α → List β) : Prop where
  nonempty : ∀ message, encode message ≠ []
  unique : ∀ first second afterFirst afterSecond,
    encode first ++ afterFirst = encode second ++ afterSecond → first = second

namespace PrefixCode

variable {encode : α → List β}

theorem of_length (length : Nat) (positive : 0 < length)
    (fixed : ∀ message, (encode message).length = length)
    (injective : Function.Injective encode) : PrefixCode encode := by
  constructor
  · intro message empty
    have none := fixed message
    rw [empty, List.length_nil] at none
    omega
  · intro first second afterFirst afterSecond equal
    apply injective
    exact (List.append_inj equal ((fixed first).trans (fixed second).symm)).1

/-- What follows the messages already read is the next message that was sent. -/
theorem next (code : PrefixCode encode) {read sent : List α} {message : α} {rest : List β}
    (sound : read <+: sent)
    (stream : read.flatMap encode ++ encode message ++ rest <+: sent.flatMap encode) :
    read ++ [message] <+: sent := by
  rcases sound with ⟨unread, rfl⟩
  rcases stream with ⟨lost, stream⟩
  rw [List.flatMap_append, List.append_assoc, List.append_assoc] at stream
  have following := List.append_cancel_left stream
  cases unread with
  | nil =>
      rw [List.flatMap_nil, List.append_eq_nil_iff] at following
      exact (code.nonempty message following.1).elim
  | cons other unread =>
      rw [List.flatMap_cons] at following
      rw [code.unique message other _ _ following]
      exact ⟨unread, by simp⟩

end PrefixCode

end RaspberryPi
