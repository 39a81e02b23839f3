import RaspberryPi.ChatServer.Server

/-! # Malformed messages

The check for a missing pid or content stands after the first use of the
content, so a message without content never gets to the branch meant for it. -/

namespace RaspberryPi.ChatServer

open CString

/-- After leading colons the string has a nonempty pid part, a colon and more. -/
def HasContent (received : Bytes) : Prop :=
  ∃ colons pid content, text received = colons ++ pid ++ colon :: content ∧
    (∀ byte ∈ colons, byte = colon) ∧ pid ≠ [] ∧ colon ∉ pid ∧ content ≠ []

theorem contentText_ne_nil_iff (string : Bytes) :
    contentText string ≠ [] ↔
      ∃ colons pid content, string = colons ++ pid ++ colon :: content ∧
        (∀ byte ∈ colons, byte = colon) ∧ pid ≠ [] ∧ colon ∉ pid ∧ content ≠ [] := by
  constructor
  · intro nonempty
    have startHead := List.head?_dropWhile_not (· == colon) string
    have split := List.takeWhile_append_dropWhile (p := (· == colon)) (l := string)
    have colons : ∀ byte ∈ string.takeWhile (· == colon), byte = colon :=
      fun byte member => by simpa using List.mem_takeWhile_imp member
    rw [contentText] at nonempty
    generalize string.dropWhile (· == colon) = start at startHead split nonempty
    have parts := List.takeWhile_append_dropWhile (p := (· != colon)) (l := start)
    have pidKept : ∀ byte ∈ start.takeWhile (· != colon), byte ≠ colon :=
      fun byte member => by simpa using List.mem_takeWhile_imp member
    have stopHead := List.head?_dropWhile_not (· != colon) start
    cases rest : start.dropWhile (· != colon) with
    | nil => simp [rest] at nonempty
    | cons stop content =>
        rw [rest] at parts nonempty stopHead
        have isColon : stop = colon := by simpa using stopHead
        rw [isColon] at parts
        refine ⟨_, start.takeWhile (· != colon), content, ?_, colons, ?_,
          fun member => pidKept colon member rfl, nonempty⟩
        · rw [List.append_assoc, parts, split]
        · intro none
          rw [none] at parts
          rw [← parts] at startHead
          simp at startHead
  · rintro ⟨colons, pid, content, rfl, isColon, nonempty, absent, rest⟩
    have skipped : (colons ++ pid ++ colon :: content).dropWhile (· == colon) =
        pid ++ colon :: content := by
      rw [List.append_assoc, List.dropWhile_append_of_pos (by simpa using isColon)]
      cases pid with
      | nil => exact (nonempty rfl).elim
      | cons first others =>
          have other : ¬first = colon := fun equal => absent (by simp [equal])
          simp [other]
    have kept : ∀ byte ∈ pid, (byte != colon) = true := by
      intro byte member
      simpa using fun equal : byte = colon => absent (equal ▸ member)
    rw [contentText, skipped, List.dropWhile_append_of_pos kept]
    simpa using rest

/-- What the handling of one message owes: no null pointer in the parse, and a
malformed message changes no table. -/
structure ParseSafe (parent : Parent) (index : Nat) (received : Bytes) : Prop where
  noNullPointer :
    parseMessage (parent.mesgBuffer.store (received ++ [0])).bytes ≠ .error .nullPointer
  malformedIgnored : ¬HasContent received → ∃ next,
    parent.handleMessage index received = .ok (next, []) ∧
      next.activeChildren = parent.activeChildren ∧ next.roomInfo = parent.roomInfo

theorem parseMessage_eq_nullPointer (buffer : MesgBuffer) {received : Bytes}
    (fits : received.length < bufsiz) :
    parseMessage (buffer.store (received ++ [0])).bytes = .error .nullPointer ↔
      contentText (text received) = [] := by
  rcases parseMessage_store buffer fits with ⟨tail, parsed, _⟩
  rw [parsed]
  by_cases empty : contentText (text received) = []
  · simp [empty]
  · simp [empty]

/-- A message is handled safely exactly when it has content. -/
theorem parseSafe_iff_hasContent (parent : Parent) (index : Nat) {received : Bytes}
    (fits : received.length < bufsiz) :
    ParseSafe parent index received ↔ HasContent received := by
  have parsed := not_congr (parseMessage_eq_nullPointer parent.mesgBuffer fits)
  have shape := contentText_ne_nil_iff (text received)
  constructor
  · intro safe
    exact shape.mp (parsed.mp safe.noNullPointer)
  · intro content
    exact ⟨parsed.mpr (shape.mpr content), fun malformed => (malformed content).elim⟩

theorem parseSafe_iff_hasContent_record :
    ParseSafe (.boot .zeroed) 0 (formatRecord 100 (ascii ['h', 'i'])) ↔
      HasContent (formatRecord 100 (ascii ['h', 'i'])) :=
  parseSafe_iff_hasContent _ _ (by decide)

/-- A client whose socket read starts with a NUL takes the parent down. -/
theorem not_parseSafe_leadingNul :
    ¬∀ (buffer : MesgBuffer) (before : Finset Fd) (others : Finset Pid)
      (events : List Event) (server : Server) (index : Nat) (received : Bytes),
      Server.machine.run (.boot buffer before others) events = some server →
        index < server.parent.clients.length → 1 ≤ received.length →
          received.length < bufsiz → ParseSafe server.parent index received := by
  intro always
  have reached : Server.machine.run (.boot .zeroed {0, 1, 2, 3} ∅)
      [.accept ⟨4, [], some (5, 6), some (7, 8), true, some 100⟩] = some _ := rfl
  have safe := always _ _ _ _ _ 0 (formatRecord 100 [0, 65]) reached (by decide) (by decide)
    (by decide)
  exact safe.noNullPointer ((parseMessage_eq_nullPointer _ (by decide)).mpr (by decide))

end RaspberryPi.ChatServer
