import RaspberryPi.ChatServer.FaultFree

/-! # Whispers

`!whisper` takes its target up to the first space, and of its text at most 1024
bytes. A nickname may have spaces, and there is room for more of the text. -/

namespace RaspberryPi.ChatServer

open CString

def whisperLine (nickname mesg : Bytes) : Bytes :=
  bang :: (Word.whisper ++ space :: (nickname ++ space :: mesg))

def whisperText (sender mesg : Bytes) : Bytes :=
  ascii ['f', 'r', 'o', 'm', ' '] ++ sender ++ ascii [' ', ':', ' '] ++ mesg

def whisperLimit : Nat := 1024

namespace Parent

theorem whisperMessage_eq (sender : PipeInfo) (mesg : Bytes) :
    whisperMessage sender mesg = whisperText sender.name.text (mesg.take whisperLimit) := by
  have short := sender.name.length_text_lt
  have size : nameSize = 32 := rfl
  have room : min (min mesg.length 1024) (bufsiz - sender.name.text.length - 10) =
      min mesg.length 1024 := by
    have buffer : bufsiz = 8192 := rfl
    omega
  have taken : mesg.take (min mesg.length 1024) = mesg.take whisperLimit := by
    rw [Nat.min_comm, ← List.take_take, List.take_length]
    rfl
  have fits : (whisperText sender.name.text (mesg.take whisperLimit)).length ≤ bufsiz - 1 := by
    have limited := List.length_take_le whisperLimit mesg
    have limit : whisperLimit = 1024 := rfl
    have buffer : bufsiz = 8192 := rfl
    simp only [whisperText, List.length_append, ascii, List.length_map, List.length_cons,
      List.length_nil]
    omega
  change snprintf bufsiz (_ ++ mesg.take (min (min mesg.length 1024) _)) = _
  rw [room, taken, snprintf]
  exact List.take_of_length_le fits

theorem whisperMessage_complete_iff (sender : PipeInfo) (mesg : Bytes) :
    whisperMessage sender mesg = whisperText sender.name.text mesg ↔
      mesg.length ≤ whisperLimit := by
  rw [whisperMessage_eq, whisperText, whisperText, List.append_cancel_left_eq]
  exact List.take_eq_self_iff mesg

theorem whisperNamed_word {parent : Parent} {fromWho : Int} {nickname mesg : Bytes}
    (nonempty : nickname ≠ []) (noNul : 0 ∉ nickname) (mesgNoNul : 0 ∉ mesg)
    (oneWord : space ∉ nickname) {sender target : PipeInfo}
    (known : parent.clientOf fromWho = some sender)
    (found : (parent.clients.find? fun client => decide (client.name.text = nickname)) =
      some target) :
    parent.whisperNamed fromWho (nickname ++ space :: mesg) =
      .ok [⟨target.parentToChildWriteFd, whisperMessage sender mesg, target.pid⟩] := by
  have word := strtok_word [] nonempty noNul mesgNoNul (by decide) oneWord
  have search : (parent.clients.find? fun client =>
      decide (client.name.Matches (nickname ++ 0 :: (mesg ++ [0])))) = some target := by
    rw [← found]
    congr 1
    funext client
    exact decide_eq_decide.mpr (matches_append noNul client.name)
  rw [whisperNamed, word]
  dsimp only
  rw [known]
  dsimp only
  rw [search, strtok_all [] mesgNoNul]
  by_cases empty : mesg = []
  · rw [empty]
    rfl
  · rw [if_neg empty]
    dsimp only
    rw [text_append_nul [] mesgNoNul]
    rfl

theorem space_notMem_target {parent : Parent} {fromWho : Int} {origin : Bytes}
    (noNul : 0 ∉ origin) {delivery : Delivery}
    (done : parent.whisperNamed fromWho origin = .ok [delivery]) :
    ∃ target ∈ parent.clients, target.pid = delivery.pid ∧ space ∉ target.name.text := by
  rw [whisperNamed] at done
  dsimp only at done
  split at done
  · cases done
  · rename_i userName token
    split at done
    · cases done
    · split at done
      · cases done
      · rename_i target found
        cases done
        have accepted := List.find?_some found
        have isMatch : strcmp target.name.bytes userName = some true := of_decide_eq_true accepted
        have same := eq_of_strcmp target.name.terminated isMatch
        refine ⟨target, List.mem_of_find?_eq_some found, rfl, ?_⟩
        rw [NameField.text, of_decide_eq_true same.symm]
        exact delimiter_notMem_token noNul (by decide) token

theorem commandWord_whisperLine (nickname mesg : Bytes) :
    commandWord (whisperLine nickname mesg) = some Word.whisper := rfl

theorem zero_notMem_whisperLine {nickname mesg : Bytes} (noNul : 0 ∉ nickname)
    (mesgNoNul : 0 ∉ mesg) : 0 ∉ whisperLine nickname mesg := by
  have command : 0 ∉ bang :: Word.whisper := by decide
  have argumentNoNul := zero_notMem_joined noNul (by decide : 0 ≠ space) mesgNoNul
  exact zero_notMem_joined command (by decide) argumentNoNul

theorem dispatch_whisperLine {parent : Parent} {index : Nat} {child : PipeInfo} {fromWho : Int}
    {nickname mesg behind : Bytes} (named : child.name.text ≠ []) (noNul : 0 ∉ nickname)
    (mesgNoNul : 0 ∉ mesg) :
    parent.dispatch index child fromWho (whisperLine nickname mesg ++ 0 :: behind) =
      do return (parent, ← parent.whisperNamed fromWho (nickname ++ space :: mesg)) := by
  have lineNoNul := zero_notMem_whisperLine noNul mesgNoNul
  have argumentNoNul : 0 ∉ nickname ++ space :: mesg :=
    zero_notMem_joined noNul (by decide) mesgNoNul
  have isBang : (whisperLine nickname mesg).headD 0 = bang := rfl
  rw [dispatch_eq lineNoNul, isBang, if_neg (by decide), if_neg named, if_pos rfl,
    if_pos (commandWord_whisperLine nickname mesg), whisper_eq argumentNoNul rfl]

end Parent

namespace Server

def nicknames (server : Server) : List Bytes :=
  (server.parent.clients.filter fun client => decide (client.name.text ≠ [])).map
    fun client => client.name.text

/-- The dispatch of the whisper writes its whole text to the target and does nothing else. -/
def WhispersTo (server : Server) (index : Nat) (sender target : PipeInfo) (mesg : Bytes) : Prop :=
  ∀ behind, server.parent.dispatch index sender sender.pid
      (whisperLine target.name.text mesg ++ 0 :: behind) =
    .ok (server.parent,
      [⟨target.parentToChildWriteFd, whisperText sender.name.text mesg, target.pid⟩])

section Delivery

variable {before : Finset Fd} {server : Server} {index : Nat} {sender target : PipeInfo}
  {mesg : Bytes}

theorem find_nickname (distinct : server.nicknames.Nodup)
    (isClient : target ∈ server.parent.clients) (named : target.name.text ≠ []) :
    (server.parent.clients.find? fun client =>
      decide (client.name.text = target.name.text)) = some target := by
  apply find?_eq_some_of_unique isClient (decide_eq_true rfl)
  intro other isOther same
  have sameName := of_decide_eq_true same
  apply List.inj_on_of_nodup_map distinct
  · exact List.mem_filter.mpr ⟨isOther, decide_eq_true (sameName ▸ named)⟩
  · exact List.mem_filter.mpr ⟨isClient, decide_eq_true named⟩
  · exact sameName

theorem whispersTo_iff_whisperNamed (senderNamed : sender.name.text ≠ []) (noNul : 0 ∉ mesg) :
    server.WhispersTo index sender target mesg ↔
      server.parent.whisperNamed sender.pid (target.name.text ++ space :: mesg) =
        .ok [⟨target.parentToChildWriteFd, whisperText sender.name.text mesg, target.pid⟩] := by
  have targetNoNul : 0 ∉ target.name.text := zero_notMem_text _
  constructor
  · intro whispers
    have done := whispers []
    rw [Parent.dispatch_whisperLine senderNamed targetNoNul noNul] at done
    rcases ok_of_bind done with ⟨deliveries, written, stored⟩
    cases stored
    exact written
  · intro written behind
    rw [Parent.dispatch_whisperLine senderNamed targetNoNul noNul, written]
    rfl

theorem whispersTo_iff_named (holds : RegistryHolds before server)
    (distinct : server.nicknames.Nodup) (isSender : sender ∈ server.parent.clients)
    (senderNamed : sender.name.text ≠ []) (isTarget : target ∈ server.parent.clients)
    (targetNamed : target.name.text ≠ []) (noNul : 0 ∉ mesg) :
    server.WhispersTo index sender target mesg ↔
      space ∉ target.name.text ∧ mesg.length ≤ whisperLimit := by
  have targetNoNul : 0 ∉ target.name.text := zero_notMem_text _
  rw [whispersTo_iff_whisperNamed senderNamed noNul, ← Parent.whisperMessage_complete_iff sender]
  by_cases oneWord : space ∈ target.name.text
  · refine iff_of_false (fun written => ?_) fun both => both.1 oneWord
    have originNoNul : 0 ∉ target.name.text ++ space :: mesg :=
      zero_notMem_joined targetNoNul (by decide) noNul
    rcases Parent.space_notMem_target originNoNul written with ⟨found, isFound, samePid, noSpace⟩
    have same := List.inj_on_of_nodup_map holds.distinct isFound isTarget samePid
    exact noSpace (same ▸ oneWord)
  · rw [Parent.whisperNamed_word targetNamed targetNoNul noNul oneWord
      (holds.clientOf_pid isSender) (find_nickname distinct isTarget targetNamed)]
    constructor
    · intro written
      have same := Except.ok.inj written
      exact ⟨oneWord, congrArg Delivery.bytes (List.cons.inj same).1⟩
    · rintro ⟨_, complete⟩
      rw [complete]

/-- In a reachable state in which no two clients have the same nickname, a whisper gets to
its target whole exactly if the nickname has no space and the text at most 1024 bytes. -/
theorem whispersTo_iff {buffer : MesgBuffer} {others : Finset Pid} {events : List Event}
    (reached : machine.run (boot buffer before others) events = some server)
    (distinct : server.nicknames.Nodup) (here : server.parent.clients[index]? = some sender)
    (senderNamed : sender.name.text ≠ []) (isTarget : target ∈ server.parent.clients)
    (targetNamed : target.name.text ≠ []) (noNul : 0 ∉ mesg) :
    server.WhispersTo index sender target mesg ↔
      space ∉ target.name.text ∧ mesg.length ≤ whisperLimit :=
  whispersTo_iff_named (registryHolds_run reached) distinct (List.mem_of_getElem? here)
    senderNamed isTarget targetNamed noNul

end Delivery

/-- Two clients give themselves names; that of the second has a space. -/
def annAndBob : List Event :=
  [.accept ⟨4, [], some (5, 6), some (7, 8), true, some 100⟩,
    .read 0 (ascii ['1', '0', '0', ':', 'a', 'n', 'n'] ++ [0]),
    .accept ⟨4, [], some (6, 7), some (9, 10), true, some 101⟩,
    .read 1 (ascii ['1', '0', '1', ':', 'b', ' ', 'o'] ++ [0])]

theorem whispersTo_iff_annAndBob :
    ∃ server ann, machine.run (boot .zeroed {0, 1, 2, 3} ∅) annAndBob = some server ∧
      server.parent.clients[0]? = some ann ∧
      (server.WhispersTo 0 ann ann (ascii ['h', 'i']) ↔
        space ∉ ann.name.text ∧ (ascii ['h', 'i']).length ≤ whisperLimit) := by
  have reached : machine.run (boot .zeroed {0, 1, 2, 3} ∅) annAndBob = some _ := rfl
  exact ⟨_, _, reached, rfl, whispersTo_iff reached (by decide) rfl (by decide)
    List.mem_cons_self (by decide) (by decide)⟩

/-- Nobody gets a whisper for the second. -/
theorem not_whispersTo_annAndBob :
    ∃ server ann bob, machine.run (boot .zeroed {0, 1, 2, 3} ∅) annAndBob = some server ∧
      server.nicknames.Nodup ∧ server.parent.clients = [ann, bob] ∧ ann.name.text ≠ [] ∧
      bob.name.text ≠ [] ∧ ¬server.WhispersTo 0 ann bob (ascii ['h', 'i']) := by
  have reached : machine.run (boot .zeroed {0, 1, 2, 3} ∅) annAndBob = some _ := rfl
  refine ⟨_, _, _, reached, by decide, rfl, by decide, by decide, ?_⟩
  rw [whispersTo_iff_whisperNamed (by decide) (by decide)]
  intro written
  cases written

end Server

end RaspberryPi.ChatServer
