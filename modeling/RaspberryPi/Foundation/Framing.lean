import Mathlib.Data.List.Count
import RaspberryPi.Foundation.CString

/-! # NUL-terminated strings on a byte stream

A sender terminates each string with a NUL, a reader cuts the stream wherever it
likes and looks at the string at the start of each piece. It sees the strings
that were sent exactly when it cuts after every terminator and nowhere else. -/

namespace RaspberryPi.CString

def weight (bytes : Bytes) : Nat := bytes.countP (· != 0)

@[simp] theorem weight_append (left right : Bytes) :
    weight (left ++ right) = weight left + weight right := List.countP_append

@[simp] theorem weight_zero_cons (bytes : Bytes) : weight (0 :: bytes) = weight bytes := rfl

theorem weight_of_noNul {string : Bytes} (noNul : 0 ∉ string) : weight string = string.length := by
  rw [weight, List.countP_eq_length]
  intro byte member
  simpa using fun equal : byte = 0 => noNul (equal ▸ member)

theorem length_text_le_weight (memory : Bytes) : (text memory).length ≤ weight memory := by
  rw [← weight_of_noNul (zero_notMem_text memory)]
  exact (List.takeWhile_sublist _).countP_le

/-- The stream that carries `strings`. -/
def terminated (strings : List Bytes) : Bytes := (strings.map (· ++ [0])).flatten

@[simp] theorem terminated_nil : terminated [] = [] := rfl

theorem terminated_cons (string : Bytes) (strings : List Bytes) :
    terminated (string :: strings) = string ++ 0 :: terminated strings := by
  simp [terminated]

theorem weight_terminated {strings : List Bytes} (noNul : ∀ string ∈ strings, 0 ∉ string) :
    weight (terminated strings) = strings.flatten.length := by
  induction strings with
  | nil => rfl
  | cons string strings induction =>
      have here := noNul string (by simp)
      have later := induction fun other member => noNul other (by simp [member])
      rw [terminated_cons, weight_append, weight_zero_cons, weight_of_noNul here, later,
        List.flatten_cons, List.length_append]

theorem length_texts_le_weight (chunks : List Bytes) :
    (chunks.map text).flatten.length ≤ weight chunks.flatten := by
  induction chunks with
  | nil => simp
  | cons chunk chunks induction =>
      have here := length_text_le_weight chunk
      simp only [List.map_cons, List.flatten_cons, List.length_append, weight_append]
      omega

/-- When a piece and what follows carry strings that are all seen later, the
piece itself carries nothing. -/
private theorem weight_eq_zero {before : Bytes} {chunks : List Bytes}
    (noNul : ∀ string ∈ chunks.map text, 0 ∉ string)
    (stream : before ++ chunks.flatten = terminated (chunks.map text)) :
    weight before = 0 := by
  have total := congrArg weight stream
  have seen := length_texts_le_weight chunks
  rw [weight_append, weight_terminated noNul] at total
  omega

private theorem terminated_ne_zero_cons {strings : List Bytes} (rest : Bytes)
    (nonempty : ∀ string ∈ strings, string ≠ [])
    (noNul : ∀ string ∈ strings, 0 ∉ string) : terminated strings ≠ 0 :: rest := by
  cases strings with
  | nil => simp
  | cons string strings =>
      have stringNonempty := nonempty string (by simp)
      have stringNoNul := noNul string (by simp)
      cases string with
      | nil => exact (stringNonempty rfl).elim
      | cons byte others =>
          rw [terminated_cons]
          intro equal
          simp only [List.cons_append, List.cons.injEq] at equal
          exact stringNoNul (by simp [equal.1])

/-- Seeing every string once, and nothing else, forces the cuts. -/
theorem chunks_eq_of_texts {chunks : List Bytes} (chunksNonempty : ∀ chunk ∈ chunks, chunk ≠ [])
    (nonempty : ∀ string ∈ chunks.map text, string ≠ [])
    (stream : chunks.flatten = terminated (chunks.map text)) :
    chunks = (chunks.map text).map (· ++ [0]) := by
  induction chunks with
  | nil => rfl
  | cons chunk chunks induction =>
      have noNul : ∀ string ∈ (chunk :: chunks).map text, 0 ∉ string := by
        intro string member
        rcases List.mem_map.mp member with ⟨memory, _, rfl⟩
        exact zero_notMem_text memory
      have laterNonempty : ∀ string ∈ chunks.map text, string ≠ [] :=
        fun string member => nonempty string (by simp [member])
      have laterNoNul : ∀ string ∈ chunks.map text, 0 ∉ string :=
        fun string member => noNul string (by simp [member])
      rw [List.map_cons, terminated_cons, List.flatten_cons] at stream
      by_cases closed : 0 ∈ chunk
      · rcases exists_eq_text_append closed with ⟨after, split⟩
        have rest : after ++ chunks.flatten = terminated (chunks.map text) := by
          rw [split, text_append_nul after (zero_notMem_text chunk), List.append_assoc] at stream
          simpa using stream
        have weightless := weight_eq_zero laterNoNul rest
        have nothing : after = [] := by
          cases after with
          | nil => rfl
          | cons byte others =>
              have zero : byte = 0 := by
                have none := List.countP_eq_zero.mp weightless byte (by simp)
                simpa using none
              subst zero
              exact (terminated_ne_zero_cons _ laterNonempty laterNoNul rest.symm).elim
        subst nothing
        rw [List.map_cons, List.map_cons, ← split,
          ← induction (fun other member => chunksNonempty other (by simp [member]))
            laterNonempty rest]
      · -- the terminator was left to the next piece, which then shows no string
        rw [text_eq_self closed] at stream
        have rest := List.append_cancel_left stream
        cases chunks with
        | nil => simp at rest
        | cons next others =>
            have nextNonempty := chunksNonempty next (by simp)
            have nextText := laterNonempty (text next) (by simp)
            cases next with
            | nil => exact (nextNonempty rfl).elim
            | cons byte bytes =>
                simp only [List.flatten_cons, List.cons_append, List.cons.injEq] at rest
                rw [rest.1] at nextText
                exact (nextText (text_zero_cons bytes)).elim

end RaspberryPi.CString
