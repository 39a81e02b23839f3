import RaspberryPi.Foundation.Decimal
import RaspberryPi.ChatServer.Command

/-! # Messages between a child and the parent

The record `client_work` writes to its pipe, and the parse `main` makes of what
one read of that pipe returned. -/

namespace RaspberryPi.ChatServer

open CString

/-- What `client_work` writes for the bytes of one socket read:
`snprintf(formatted_mesg, BUFSIZ + 32, "%d:%s", ...)` up to its terminator. -/
def formatRecord (clientPid : Pid) (received : Bytes) : Bytes :=
  snprintf (bufsiz + 32) (decimal clientPid ++ colon :: text received) ++ [0]

/-- `pid_str` and `content` after the newline cut, each as the memory from it
on. `strchr` is called on `content` before the null check. -/
def parseMessage (mesgBuffer : Bytes) : Except Fault (Option Bytes × Bytes) :=
  let first := strtok mesgBuffer [colon]
  match (strtok first.2 []).1 with
  | none => .error .nullPointer
  | some content => .ok (first.1, cutAt content newline)

def parsedBuffer (buffer : MesgBuffer) (content : Bytes) : MesgBuffer :=
  let before := buffer.bytes.take (bufsiz - content.length - 1)
  buffer.store (before ++ 0 :: content)

def pidText (string : Bytes) : Bytes :=
  (string.dropWhile (· == colon)).takeWhile (· != colon)

def contentText (string : Bytes) : Bytes :=
  ((string.dropWhile (· == colon)).dropWhile (· != colon)).tail

def lineOf (content : Bytes) : Bytes := content.takeWhile (· != newline)

def afterLine (content : Bytes) : Bytes := (content.dropWhile (· != newline)).tail

theorem zero_notMem_contentText {string : Bytes} (noNul : 0 ∉ string) :
    0 ∉ contentText string := fun member =>
  noNul (List.dropWhile_subset _ (List.dropWhile_subset _ (List.mem_of_mem_tail member)))

theorem zero_notMem_lineOf {content : Bytes} (noNul : 0 ∉ content) : 0 ∉ lineOf content :=
  fun member => noNul (List.takeWhile_subset _ member)

theorem parseMessage_eq {string : Bytes} (tail : Bytes) (noNul : 0 ∉ string) :
    parseMessage (string ++ 0 :: tail) =
      if contentText string = [] then .error .nullPointer
      else .ok (some (pidText string ++ 0 :: (contentText string ++ 0 :: tail)),
        cutAt (contentText string ++ 0 :: tail) newline) := by
  have saved : (strtok (string ++ 0 :: tail) [colon]).2 = contentText string ++ 0 :: tail :=
    strtok_saved tail noNul (by decide)
  simp only [parseMessage, saved, strtok_all tail (zero_notMem_contentText noNul)]
  by_cases empty : contentText string = []
  · simp [empty]
  · have token : (strtok (string ++ 0 :: tail) [colon]).1 =
        some (pidText string ++ 0 :: (contentText string ++ 0 :: tail)) :=
      strtok_token tail noNul (by decide) empty
    simp [empty, token]

/-- The parse of a buffer that holds what one read returned. Behind a complete
record the string in the buffer ends with a second NUL. -/
theorem parseMessage_store (buffer : MesgBuffer) {received : Bytes}
    (fits : received.length < bufsiz) :
    ∃ tail, parseMessage (buffer.store (received ++ [0])).bytes =
        (if contentText (text received) = [] then .error .nullPointer
        else .ok (some (pidText (text received) ++
            0 :: (contentText (text received) ++ 0 :: tail)),
          cutAt (contentText (text received) ++ 0 :: tail) newline)) ∧
      ∀ record, received = record ++ [0] → 0 ∉ record → ∃ others, tail = 0 :: others := by
  have stored : (buffer.store (received ++ [0])).bytes =
      received ++ 0 :: buffer.bytes.drop (received.length + 1) := by
    rw [MesgBuffer.bytes_store (by rw [List.length_append]; exact fits)]
    simp
  rcases exists_append_nul_eq received (buffer.bytes.drop (received.length + 1)) with
    ⟨tail, split⟩
  refine ⟨tail, ?_, ?_⟩
  · rw [stored, split, parseMessage_eq tail (zero_notMem_text received)]
  · rintro record rfl noNul
    have sameText : text (record ++ [0]) = record := text_append_nul [] noNul
    rw [sameText] at split
    exact ⟨buffer.bytes.drop ((record ++ [0]).length + 1), by simpa using split.symm⟩

theorem text_pidText_append {string : Bytes} (tail : Bytes) (noNul : 0 ∉ string) :
    text (pidText string ++ 0 :: tail) = pidText string :=
  text_append_nul tail fun member =>
    noNul (List.dropWhile_subset _ (List.takeWhile_subset _ member))

/-- What stands in the memory of a dispatched content: its line, a NUL and the
text after the newline, which the cut leaves in place. -/
theorem cutAt_content {content : Bytes} (tail : Bytes) (noNul : 0 ∉ content) :
    ∃ rest, cutAt (content ++ 0 :: tail) newline = lineOf content ++ 0 :: rest ∧
      (text tail = [] → text rest = afterLine content) ∧ (0 ∈ tail → 0 ∈ rest) := by
  by_cases present : newline ∈ content
  · rcases List.eq_append_cons_of_mem present with ⟨before, after, rfl, absent⟩
    have beforeNoNul : 0 ∉ before := fun member => noNul (by simp [member])
    have afterNoNul : 0 ∉ after := fun member => noNul (by simp [member])
    have kept : ∀ byte ∈ before, (byte != newline) = true := by
      intro byte member
      simpa using fun equal : byte = newline => absent (equal ▸ member)
    have line : lineOf (before ++ newline :: after) = before := by
      rw [lineOf, List.takeWhile_append_of_pos kept]
      simp
    have rest : afterLine (before ++ newline :: after) = after := by
      rw [afterLine, List.dropWhile_append_of_pos kept]
      simp
    refine ⟨after ++ 0 :: tail, ?_, fun _ => ?_, fun _ => by simp⟩
    · rw [line, List.append_assoc, List.cons_append, cutAt_append _ beforeNoNul absent]
    · rw [rest, text_append_nul tail afterNoNul]
  · have kept : ∀ byte ∈ content, (byte != newline) = true := by
      intro byte member
      simpa using fun equal : byte = newline => present (equal ▸ member)
    have line : lineOf content = content := List.takeWhile_eq_self_iff.mpr kept
    have rest : afterLine content = [] := by
      rw [afterLine, List.dropWhile_eq_nil_iff.mpr kept]
      rfl
    exact ⟨tail, by rw [line, cutAt_of_notMem tail (by decide) present],
      fun nothing => by rw [rest, nothing], id⟩

/-! ## The record of a child -/

private theorem decimal_kept (pid : Pid) :
    ∀ byte ∈ decimal pid, (byte != colon) = true := by
  intro byte member
  have absent : colon ∉ decimal pid := notMem_decimal (by decide)
  simpa using fun equal : byte = colon => absent (equal ▸ member)

theorem zero_notMem_record (pid : Pid) {content : Bytes} (noNul : 0 ∉ content) :
    0 ∉ decimal pid ++ colon :: content := by
  have decimalNoNul : 0 ∉ decimal pid := notMem_decimal (by decide)
  exact zero_notMem_joined decimalNoNul (by decide) noNul

private theorem dropWhile_colon_decimal (pid : Pid) (rest : Bytes) :
    (decimal pid ++ rest).dropWhile (· == colon) = decimal pid ++ rest := by
  cases printed : decimal pid with
  | nil => exact (decimal_ne_nil pid printed).elim
  | cons first others =>
      have kept := decimal_kept pid first (by simp [printed])
      simp only [List.cons_append]
      exact List.dropWhile_cons_of_neg (by simpa using kept)

theorem pidText_record (pid : Pid) (content : Bytes) :
    pidText (decimal pid ++ colon :: content) = decimal pid := by
  rw [pidText, dropWhile_colon_decimal, List.takeWhile_append_of_pos (decimal_kept pid)]
  simp

theorem contentText_record (pid : Pid) (content : Bytes) :
    contentText (decimal pid ++ colon :: content) = content := by
  rw [contentText, dropWhile_colon_decimal, List.dropWhile_append_of_pos (decimal_kept pid)]
  simp

theorem formatRecord_eq {pid : Pid} {received : Bytes} (pidInRange : (pid : Int) ≤ intMax)
    (fits : received.length < bufsiz) :
    formatRecord pid received = decimal pid ++ colon :: text received ++ [0] := by
  have digits := length_decimal_le pidInRange
  have shorter : (text received).length ≤ received.length :=
    (List.takeWhile_sublist _).length_le
  rw [formatRecord, snprintf, List.take_of_length_le]
  simp only [List.length_append, List.length_cons]
  omega

end RaspberryPi.ChatServer
