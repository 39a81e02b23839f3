import RaspberryPi.Streaming.DoubleColor
import RaspberryPi.Streaming.FrameBounds
import RaspberryPi.Streaming.Progress

/-! # What the server shows and plays

The server with its framebuffer and its sound stream, beside all of its clients:
what the processing of the frames leaves on the screen in any run of the
connections. -/

namespace RaspberryPi.Streaming

/-- Pixels in the `screensize` bytes of the mapping. -/
def Screen.mapped (screen : Screen) : Nat := screen.xres * screen.yres * 16 % 2 ^ 32 / 8 / 2

def Screen.store (screen : Screen) (framebuffer : Nat → UInt16) (store : Store) :
    Option (Nat → UInt16) :=
  if store.index < screen.mapped then
    some (Function.update framebuffer store.index store.pixel)
  else none

structure Output where
  system : System
  framebuffer : Nat → UInt16
  /-- The buffers that `pa_simple_write` was called with. -/
  played : List Bytes
  /-- The frames that were processed so far, with their connections. -/
  processed : List (Nat × Message)

namespace Output

def start (framebuffer : Nat → UInt16) : Output := ⟨.start, framebuffer, [], []⟩

/-- The branches on `data_type`; `fused` says how the compiler has the colours computed. -/
def process (fused : Bool) (screen : Screen) (connection : Nat) (message : Message)
    (output : Output) : Option Output :=
  let processed := output.processed ++ [(connection, message)]
  if message.dataType = videoType then do
    let stores ← displayFrameWith (YuvPixel.doublePixel fused) screen message.buffer frameWidth
      frameHeight
    let framebuffer ← stores.foldlM screen.store output.framebuffer
    some { output with framebuffer, processed }
  else if message.dataType = audioType then
    some { output with played := output.played ++ [message.buffer], processed }
  else some { output with processed }

def handled (system : System) : SystemEvent → Option (Nat × Message)
  | .server (.process _) =>
      match system.serving with
      | some (connection, .processing message) => some (connection, message)
      | _ => none
  | _ => none

def next (order : ByteOrder) (fused : Bool) (screen : Screen) (output : Output)
    (event : SystemEvent) : Option Output := do
  let system ← output.system.next order event
  match handled output.system event with
  | none => some { output with system }
  | some (connection, message) => process fused screen connection message { output with system }

def machine (order : ByteOrder) (fused : Bool) (screen : Screen) : Machine Output SystemEvent :=
  ⟨next order fused screen⟩

/-! ## What should be shown and played -/

/-- The picture is in the middle of the screen, and nothing else has changed. -/
structure Paints (fused : Bool) (screen : Screen) (data : Bytes) (before after : Nat → UInt16) :
    Prop where
  inside : ∀ x < frameWidth, ∀ y < frameHeight,
    after (centredIndex screen frameWidth frameHeight x y) =
      (framePixel data frameWidth x y).doublePixel fused
  /-- The rounding shows in two pairs of chromas only. -/
  exactly : ∀ x < frameWidth, ∀ y < frameHeight, ¬(framePixel data frameWidth x y).WholeGreen →
    after (centredIndex screen frameWidth frameHeight x y) = (framePixel data frameWidth x y).pixel
  outside : ∀ index,
    (∀ x < frameWidth, ∀ y < frameHeight, centredIndex screen frameWidth frameHeight x y ≠ index) →
      after index = before index

def messages (output : Output) (dataType : UInt8) : List Message :=
  (output.processed.map Prod.snd).filter (·.dataType = dataType)

/-- The last video frame is on the screen, all audio frames were played, and those
of one connection are in the order in which the server accepted them. -/
structure Presents (fused : Bool) (screen : Screen) (memory : Nat → UInt16) (output : Output) :
    Prop where
  blank : output.messages videoType = [] → output.framebuffer = memory
  shown : ∀ message ∈ (output.messages videoType).getLast?,
    Paints fused screen message.buffer memory output.framebuffer
  played : output.played = (output.messages audioType).map Message.buffer
  read : ∀ entry ∈ output.processed, ∀ offset ∈ entry.2.reads, offset < entry.2.buffer.length
  inOrder : ∀ connection,
    (output.processed.filter (·.1 = connection)).map Prod.snd =
      (output.system.link connection).accepted

structure Roomy (screen : Screen) : Prop where
  columns : frameWidth ≤ screen.xres
  rows : frameHeight ≤ screen.yres
  mappingFits : screen.xres * screen.yres < 2 ^ 28

/-- The camera fills the buffer. -/
def IsWhole (frame : Frame) : Prop :=
  frame.dataType = videoType → frameWidth * frameHeight * 2 ≤ frame.buffer.length

variable {order : ByteOrder} {fused : Bool} {screen : Screen} {memory before after : Nat → UInt16}
  {data : Bytes} {output following : Output}

/-! ## One picture -/

theorem Roomy.mapped_eq (roomy : Roomy screen) : screen.mapped = screen.xres * screen.yres := by
  have fits := roomy.mappingFits
  rw [Screen.mapped]
  omega

theorem Roomy.hasRoom (roomy : Roomy screen) : HasRoom screen frameWidth frameHeight := by
  have columns := roomy.columns
  have rows := roomy.rows
  have fits := roomy.mappingFits
  have widthBound : screen.xres * 480 ≤ screen.xres * screen.yres := Nat.mul_le_mul_left _ rows
  have heightBound : 640 * screen.yres ≤ screen.xres * screen.yres := Nat.mul_le_mul_right _ columns
  have corner := centredIndex_lt columns rows (show frameWidth - 1 < frameWidth by decide)
    (show frameHeight - 1 < frameHeight by decide)
  refine ⟨columns, rows, by decide, ?_, ?_, by omega⟩
  · simp only [frameWidth]
    omega
  · simp only [frameHeight]
    omega

theorem Paints.trans {middle : Nat → UInt16} {earlier : Bytes}
    (first : Paints fused screen earlier before middle)
    (second : Paints fused screen data middle after) : Paints fused screen data before after where
  inside := second.inside
  exactly := second.exactly
  outside index elsewhere := (second.outside index elsewhere).trans (first.outside index elsewhere)

theorem Roomy.store_centred (roomy : Roomy screen) {x y : Nat} (column : x < frameWidth)
    (row : y < frameHeight) (framebuffer : Nat → UInt16) :
    screen.store framebuffer
        (centredStore (YuvPixel.doublePixel fused) screen data frameWidth frameHeight x y) =
      some (Function.update framebuffer (centredIndex screen frameWidth frameHeight x y)
        ((framePixel data frameWidth x y).doublePixel fused)) := by
  have inside : centredIndex screen frameWidth frameHeight x y < screen.mapped := by
    rw [roomy.mapped_eq]
    exact centredIndex_lt roomy.columns roomy.rows column row
  exact if_pos inside

theorem Roomy.cell_eq_of_index_eq (roomy : Roomy screen) {first second : Nat × Nat}
    (firstCell : first ∈ Raster.cells frameWidth frameHeight)
    (secondCell : second ∈ Raster.cells frameWidth frameHeight)
    (same : centredIndex screen frameWidth frameHeight first.1 first.2 =
      centredIndex screen frameWidth frameHeight second.1 second.2) : first = second := by
  have nodup := @nodup_centredFrame YuvPixel.pixel screen [] frameWidth frameHeight roomy.columns
  rw [centredFrameWith, List.map_map] at nodup
  exact List.inj_on_of_nodup_map nodup firstCell secondCell same

theorem Roomy.paints (roomy : Roomy screen)
    (whole : frameWidth * frameHeight * 2 ≤ data.length) (before : Nat → UInt16) :
    ∃ stores after,
      displayFrameWith (YuvPixel.doublePixel fused) screen data frameWidth frameHeight =
        some stores ∧
      stores.foldlM screen.store before = some after ∧ Paints fused screen data before after := by
  have complete : 2 * (frameHeight * frameWidth) ≤ data.length := by
    rw [Nat.mul_comm frameHeight, Nat.mul_comm 2]
    exact whole
  have body : ∀ cell ∈ Raster.cells frameWidth frameHeight, ∀ framebuffer,
      screen.store framebuffer (centredStore (YuvPixel.doublePixel fused) screen data frameWidth
          frameHeight cell.1 cell.2) =
        some (if True then Function.update framebuffer
          (centredIndex screen frameWidth frameHeight cell.1 cell.2)
          ((framePixel data frameWidth cell.1 cell.2).doublePixel fused) else framebuffer) := by
    rintro ⟨x, y⟩ member framebuffer
    rcases Raster.mem_cells.mp member with ⟨column, row⟩
    rw [if_pos trivial]
    exact roomy.store_centred column row framebuffer
  have agree : ∀ first ∈ Raster.cells frameWidth frameHeight,
      ∀ second ∈ Raster.cells frameWidth frameHeight, True → True →
      centredIndex screen frameWidth frameHeight first.1 first.2 =
        centredIndex screen frameWidth frameHeight second.1 second.2 →
      (framePixel data frameWidth first.1 first.2).doublePixel fused =
        (framePixel data frameWidth second.1 second.2).doublePixel fused := by
    intro first firstCell second secondCell _ _ same
    rw [roomy.cell_eq_of_index_eq firstCell secondCell same]
  rcases Raster.foldlM_writes body agree before with ⟨after, ran, written, kept⟩
  have inside : ∀ x < frameWidth, ∀ y < frameHeight,
      after (centredIndex screen frameWidth frameHeight x y) =
        (framePixel data frameWidth x y).doublePixel fused :=
    fun x column y row => written (x, y) (Raster.mem_cells.mpr ⟨column, row⟩) trivial
  have room := roomy.hasRoom
  refine ⟨_, after, room.displayFrame_eq Message.evenSize_frame complete, ?_, inside, ?_, ?_⟩
  · rw [centredFrameWith, List.foldlM_map]
    exact ran
  · intro x column y row ordinary
    rw [inside x column y row, YuvPixel.doublePixel_eq fused _ ordinary]
  · intro index elsewhere
    refine kept index ?_
    rintro ⟨x, y⟩ member _
    rcases Raster.mem_cells.mp member with ⟨column, row⟩
    exact elsewhere x column y row

/-! ## One step -/

theorem accepted_of_handled {system following : System} {event : SystemEvent} {acting : Nat}
    {message : Message} (step : system.next order event = some following)
    (processing : handled system event = some (acting, message)) (connection : Nat) :
    (following.link connection).accepted = (system.link connection).accepted ++
      if acting = connection then [message] else [] := by
  cases event with
  | client | pick => cases processing
  | server event =>
      rcases System.next_server_eq_some.mp step with
        ⟨served, task, link, left, serving, taken, rfl⟩
      cases Link.serverStep_of_next taken with
      | process begun played =>
          simp only [handled, serving] at processing
          cases processing
          by_cases same : acting = connection
          · subst same
            simp only [System.setLink, Function.update_self, if_true, Link.accepted,
              List.map_append, List.map_cons, List.map_nil]
          · simp only [System.setLink, Function.update_of_ne (Ne.symm same), if_neg same,
              List.append_nil]
      | _ => cases processing

theorem accepted_of_idle {system following : System} {event : SystemEvent}
    (step : system.next order event = some following) (idle : handled system event = none)
    (connection : Nat) :
    (following.link connection).accepted = (system.link connection).accepted := by
  cases event with
  | client acting event =>
      rcases System.next_client_eq_some.mp step with ⟨link, taken, rfl⟩
      by_cases same : connection = acting
      · subst same
        simp only [System.setLink, Function.update_self, Link.accepted]
        rw [(Link.clientStep_of_next taken).processed_eq]
      · simp only [System.setLink, Function.update_of_ne same]
  | pick acting =>
      rcases System.next_pick_eq_some.mp step with ⟨_, rfl⟩
      rfl
  | server event =>
      rcases System.next_server_eq_some.mp step with
        ⟨served, task, link, left, serving, taken, rfl⟩
      have kept : link.accepted = (system.link served).accepted := by
        cases Link.serverStep_of_next taken with
        | process begun played =>
            simp only [handled, serving] at idle
            cases idle
        | _ => rfl
      by_cases same : connection = served
      · subst same
        simp only [System.setLink, Function.update_self]
        exact kept
      · simp only [System.setLink, Function.update_of_ne same]

theorem messages_of_processed {dataType : UInt8} {acting : Nat} {message : Message}
    (processed : following.processed = output.processed ++ [(acting, message)]) :
    following.messages dataType =
      output.messages dataType ++ if message.dataType = dataType then [message] else [] := by
  simp only [messages, processed, List.map_append, List.map_cons, List.map_nil,
    List.filter_append, List.filter_singleton, Bool.cond_decide]

structure Processes (fused : Bool) (screen : Screen) (acting : Nat) (message : Message)
    (output following : Output) : Prop where
  system : following.system = output.system
  processed : following.processed = output.processed ++ [(acting, message)]
  shown : message.dataType = videoType →
    Paints fused screen message.buffer output.framebuffer following.framebuffer
  keptScreen : message.dataType ≠ videoType → following.framebuffer = output.framebuffer
  played : following.played =
    output.played ++ if message.dataType = audioType then [message.buffer] else []
  read : ∀ offset ∈ message.reads, offset < message.buffer.length

theorem Roomy.exists_process (roomy : Roomy screen) (fused : Bool) (acting : Nat)
    {message : Message}
    (whole : message.dataType = videoType →
      frameWidth * frameHeight * 2 ≤ message.buffer.length) (output : Output) :
    ∃ following, process fused screen acting message output = some following ∧
      Processes fused screen acting message output following := by
  by_cases video : message.dataType = videoType
  · rcases roomy.paints (whole video) output.framebuffer with ⟨stores, after, ran, stored, paints⟩
    have silent : message.dataType ≠ audioType := by
      rw [video]
      decide
    refine ⟨{ output with
      framebuffer := after, processed := output.processed ++ [(acting, message)] }, ?_, ?_⟩
    · rw [process, if_pos video, ran]
      show (stores.foldlM screen.store output.framebuffer).bind _ = _
      rw [stored]
      rfl
    · refine ⟨rfl, rfl, fun _ => paints, fun other => (other video).elim, ?_, ?_⟩
      · rw [if_neg silent, List.append_nil]
      · rw [Message.reads, if_pos video]
        exact displayFrame_reads ran
  · by_cases audio : message.dataType = audioType
    · refine ⟨_, (if_neg video).trans (if_pos audio), rfl, rfl, fun isVideo => (video isVideo).elim,
        fun _ => rfl, ?_, ?_⟩
      · rw [if_pos audio]
      · intro offset member
        rw [Message.reads, if_neg video, if_pos audio, List.mem_range] at member
        rwa [message.size]
    · refine ⟨_, (if_neg video).trans (if_neg audio), rfl, rfl, fun isVideo => (video isVideo).elim,
        fun _ => rfl, ?_, ?_⟩
      · rw [if_neg audio, List.append_nil]
      · intro offset member
        rw [Message.reads, if_neg video, if_neg audio] at member
        cases member

theorem Presents.overpaints (presents : Presents fused screen memory output)
    (paints : Paints fused screen data output.framebuffer after) :
    Paints fused screen data memory after := by
  cases last : (output.messages videoType).getLast? with
  | none =>
      rw [presents.blank (List.getLast?_eq_none_iff.mp last)] at paints
      exact paints
  | some message => exact (presents.shown message last).trans paints

theorem Presents.processes {acting : Nat} {message : Message} {system : System}
    (presents : Presents fused screen memory output)
    (processes : Processes fused screen acting message { output with system } following)
    (accepted : ∀ connection, (system.link connection).accepted =
      (output.system.link connection).accepted ++ if acting = connection then [message] else []) :
    Presents fused screen memory following where
  read := by
    rw [processes.processed]
    intro entry member
    rcases List.mem_append.mp member with earlier | latest
    · exact presents.read entry earlier
    · rw [List.mem_singleton.mp latest]
      exact processes.read
  blank := by
    intro none
    rw [messages_of_processed processes.processed, List.append_eq_nil_iff] at none
    have noVideo : message.dataType ≠ videoType := fun video => by
      rw [if_pos video] at none
      exact List.cons_ne_nil _ _ none.2
    exact (processes.keptScreen noVideo).trans (presents.blank none.1)
  shown := by
    intro last isLast
    rw [messages_of_processed processes.processed] at isLast
    by_cases video : message.dataType = videoType
    · rw [if_pos video, List.getLast?_concat] at isLast
      cases isLast
      exact presents.overpaints (processes.shown video)
    · rw [if_neg video, List.append_nil] at isLast
      rw [processes.keptScreen video]
      exact presents.shown last isLast
  played := by
    rw [processes.played, messages_of_processed processes.processed, List.map_append]
    show output.played ++ _ = _
    rw [presents.played]
    split_ifs <;> rfl
  inOrder := by
    intro connection
    rw [processes.system, accepted connection, ← presents.inOrder connection,
      processes.processed, List.filter_append, List.map_append]
    by_cases same : acting = connection <;> simp [same]

/-! ## One frame all the way -/

def alone (link : Link) (task : Option ServerTask) : System :=
  ⟨Function.update System.start.link 0 link, task.map (0, ·)⟩

/-- The steps of the client and of the server for one frame, when every call transfers
all that it is asked for. -/
def sendSteps (frame : Frame) : List SystemEvent :=
  [.client 0 (.frame frame), .client 0 (.send 1), .client 0 .sendDone, .client 0 (.send 4),
    .client 0 .sendDone, .client 0 (.send frame.buffer.length), .client 0 .sendDone]

def receiveSteps (frame : Frame) : List SystemEvent :=
  [.pick 0, .server (.recv 1), .server .recvDone, .server (.recv 4), .server .recvDone,
    .server (.recv frame.buffer.length), .server .recvDone, .server (.process true)]

def answerSteps : List SystemEvent :=
  [.server (.send 4), .server .sendDone, .client 0 .select, .client 0 (.recv 4),
    .client 0 .recvDone]

def exchange (frame : Frame) : List SystemEvent :=
  sendSteps frame ++ (receiveSteps frame ++ answerSteps)

structure Sound (order : ByteOrder) (fused : Bool) (screen : Screen) (memory : Nat → UInt16)
    (output : Output) : Prop where
  system : System.Sound order output.system
  whole : ∀ connection, ∀ frame ∈ (output.system.link connection).sent, IsWhole frame
  presents : Presents fused screen memory output

theorem sound_start (order : ByteOrder) (fused : Bool) (screen : Screen) (memory : Nat → UInt16) :
    Sound order fused screen memory (start memory) where
  system := System.sound_start order
  whole := fun _ _ sent => (List.not_mem_nil sent).elim
  presents := {
    blank := fun _ => rfl
    shown := fun _ last => nomatch last
    played := rfl
    read := fun _ member => nomatch member
    inOrder := fun _ => rfl }

theorem whole_of_accepted {system : System} {acting : Nat} {message : Message}
    (sound : System.Sound order system)
    (whole : ∀ connection, ∀ frame ∈ (system.link connection).sent, IsWhole frame)
    (accepted : message ∈ (system.link acting).accepted) :
    message.dataType = videoType → frameWidth * frameHeight * 2 ≤ message.buffer.length := by
  intro video
  rcases List.mem_map.mp ((sound acting).accepted.subset accepted) with ⟨frame, sent, rfl⟩
  exact whole acting frame sent video

theorem Sound.next (roomy : Roomy screen) {system : System} {event : SystemEvent}
    (sound : Sound order fused screen memory output)
    (captured : ∀ connection frame, event = .client connection (.frame frame) → IsWhole frame)
    (step : output.system.next order event = some system) :
    ∃ following, Output.next order fused screen output event = some following ∧
      following.system = system ∧ Sound order fused screen memory following ∧
      following.processed = output.processed ++ (handled output.system event).toList := by
  have keeps := sound.system.next step
  have whole : ∀ connection, ∀ frame ∈ (system.link connection).sent, IsWhole frame := by
    intro connection frame sent
    rcases System.mem_sent_next step sent with earlier | latest
    · exact sound.whole connection frame earlier
    · exact captured connection frame latest
  cases processing : handled output.system event with
  | none =>
      refine ⟨{ output with system }, ?_, rfl, ⟨keeps, whole, ?_⟩, (List.append_nil _).symm⟩
      · simp only [Output.next, step, processing, Option.bind_eq_bind, Option.bind_some]
      · refine ⟨sound.presents.blank, sound.presents.shown, sound.presents.played,
          sound.presents.read, ?_⟩
        intro connection
        rw [accepted_of_idle step processing connection]
        exact sound.presents.inOrder connection
  | some handling =>
      rcases handling with ⟨acting, message⟩
      have accepted := accepted_of_handled step processing
      have isAccepted : message ∈ (system.link acting).accepted := by
        rw [accepted acting, if_pos rfl]
        exact List.mem_concat_self
      rcases roomy.exists_process fused acting (whole_of_accepted keeps whole isAccepted)
        { output with system } with ⟨following, taken, processes⟩
      have same : following.system = system := processes.system
      refine ⟨following, ?_, same, ?_, processes.processed⟩
      · simp only [Output.next, step, processing, Option.bind_eq_bind, Option.bind_some]
        exact taken
      · rw [← same] at keeps whole
        exact ⟨keeps, whole, sound.presents.processes processes accepted⟩

/-- Right after the server had processed a frame, the first `count` of its connection were
processed, it last. -/
structure Reaches (order : ByteOrder) (fused : Bool) (screen : Screen) (memory : Nat → UInt16)
    (events : List SystemEvent) (connection count : Nat) (message : Message) (shown : Output) :
    Prop where
  ran : (machine order fused screen).run (start memory) events = some shown
  sound : Sound order fused screen memory shown
  counted : (shown.system.link connection).accepted.length = count
  latest : shown.processed.getLast? = some (connection, message)

end Output

end RaspberryPi.Streaming
