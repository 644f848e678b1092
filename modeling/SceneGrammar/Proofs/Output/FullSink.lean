import SceneGrammar.Output.JsonLines
import SceneGrammar.Proofs.Expansion.Refusal
import SceneGrammar.Proofs.Output.EventLine

/-!
# Writing into a sink that runs full

A sink with little room gets the first bytes of what one without bounds gets, wherever that cuts: in
the text of an event, before its newline or between two events. The events counted as written are
those whose newline has gone out.
-/

namespace SceneGrammar

/-- An event as it is written, with the newline at its end. -/
def Event.line (event : Event Matrix) : ByteArray := event.json.toUTF8 ++ "\n".toUTF8

def eventLines : List (Event Matrix) → ByteArray
  | [] => .empty
  | event :: events => event.line ++ eventLines events

def newlines (bytes : ByteArray) : Nat := bytes.data.toList.count 10

theorem extract_of_size_le {bytes : ByteArray} {room : Nat} (h : bytes.size ≤ room) :
    bytes.extract 0 room = bytes := by
  have hnone : bytes.extract bytes.size room = .empty :=
    ByteArray.extract_eq_empty_iff.2 (Nat.min_le_right _ _)
  rw [ByteArray.extract_eq_extract_append_extract bytes.size (Nat.zero_le _) h,
    ByteArray.extract_zero_size, hnone, ByteArray.append_empty]

theorem extract_append_of_le {front back : ByteArray} {room : Nat} (h : room ≤ front.size) :
    (front ++ back).extract 0 room = front.extract 0 room := by
  have hnone : room - front.size = 0 := by omega
  rw [ByteArray.extract_append, hnone, Nat.zero_sub, ByteArray.extract_same, ByteArray.append_empty]

theorem extract_append_of_ge {front back : ByteArray} {room : Nat} (h : front.size ≤ room) :
    (front ++ back).extract 0 room = front ++ back.extract 0 (room - front.size) := by
  rw [ByteArray.extract_append, extract_of_size_le h, Nat.zero_sub]

/-! ## Newlines -/

theorem newlines_append (front back : ByteArray) :
    newlines (front ++ back) = newlines front + newlines back := by
  rw [newlines, ByteArray.data_append, Array.toList_append, List.count_append]
  rfl

theorem size_line (event : Event Matrix) : event.line.size = event.json.toUTF8.size + 1 := by
  rw [Event.line, ByteArray.size_append]
  rfl

theorem newlines_json (event : Event Matrix) : newlines event.json.toUTF8 = 0 :=
  List.count_eq_zero.2 fun hmem =>
    newline_notMem_toUTF8 event.oneLine_json (Array.mem_toList_iff.1 hmem)

theorem newlines_eventLines (events : List (Event Matrix)) :
    newlines (eventLines events) = events.length := by
  induction events with
  | nil => rfl
  | cons event events ih =>
    have hend : newlines "\n".toUTF8 = 1 := by decide
    rw [eventLines, Event.line, newlines_append, newlines_append, newlines_json, hend, ih,
      List.length_cons]
    omega

/-- Less than the whole line is a part of the text. -/
theorem extract_line {event : Event Matrix} {room : Nat} (h : room < event.line.size) :
    event.line.extract 0 room = event.json.toUTF8.extract 0 room := by
  rw [size_line] at h
  exact extract_append_of_le (by omega)

theorem newlines_extract_line {event : Event Matrix} {room : Nat} (h : room < event.line.size) :
    newlines (event.line.extract 0 room) = 0 := by
  rw [extract_line h, newlines, ByteArray.data_extract, Array.toList_extract,
    List.extract_eq_take_drop, List.drop_zero]
  have hnone := List.count_eq_zero.1 (newlines_json event)
  exact List.count_eq_zero.2 fun hmem => hnone (List.mem_of_mem_take hmem)

theorem eventLines_append (before after : List (Event Matrix)) :
    eventLines (before ++ after) = eventLines before ++ eventLines after := by
  induction before with
  | nil => exact ByteArray.empty_append.symm
  | cons event before ih =>
    rw [List.cons_append, eventLines, eventLines, ih, ByteArray.append_assoc]

/-- The event whose line is the first that does not fit. -/
theorem exists_cut {events : List (Event Matrix)} {room : Nat}
    (h : room < (eventLines events).size) :
    ∃ before event later, events = before ++ event :: later ∧ (eventLines before).size ≤ room ∧
      room - (eventLines before).size < event.line.size := by
  induction events generalizing room with
  | nil => exact absurd h (Nat.not_lt_zero _)
  | cons first events ih =>
    rw [eventLines, ByteArray.size_append] at h
    by_cases hfirst : room < first.line.size
    · exact ⟨[], first, events, rfl, Nat.zero_le _, hfirst⟩
    · have hlater : room - first.line.size < (eventLines events).size := by omega
      obtain ⟨before, event, later, rfl, hfits, hcut⟩ := ih hlater
      refine ⟨first :: before, event, later, rfl, ?_, ?_⟩
      · rw [eventLines, ByteArray.size_append]
        omega
      · rw [eventLines, ByteArray.size_append]
        omega

/-! ## The sink -/

namespace Sink

def Fits (sink : Sink) (size : Nat) : Prop := ∀ room ∈ sink.room, size ≤ room

theorem fits_iff {sink : Sink} {room size : Nat} (hroom : sink.room = some room) :
    sink.Fits size ↔ size ≤ room := by
  rw [Fits, hroom]
  exact ⟨fun h => h room rfl, fun h _ hmem => Option.some.inj hmem ▸ h⟩

/-- The sink when the bytes have gone out. -/
def after (sink : Sink) (bytes : ByteArray) : Sink :=
  ⟨sink.bytes ++ bytes, sink.room.map (· - bytes.size), sink.flushes⟩

theorem write_of_fits {sink : Sink} {bytes : ByteArray} (h : sink.Fits bytes.size) :
    sink.write bytes = (true, sink.after bytes) := by
  obtain ⟨before, room, flushes⟩ := sink
  cases room with
  | none => rfl
  | some room => exact if_pos (h room rfl)

theorem write_of_full {sink : Sink} {bytes : ByteArray} {room : Nat} (hroom : sink.room = some room)
    (h : room < bytes.size) :
    sink.write bytes = (false, ⟨sink.bytes ++ bytes.extract 0 room, some 0, sink.flushes⟩) := by
  rw [write, hroom]
  exact if_neg (Nat.not_le.2 h)

theorem after_empty (sink : Sink) : sink.after .empty = sink := by
  obtain ⟨before, room, flushes⟩ := sink
  cases room <;> rw [after, ByteArray.append_empty] <;> rfl

theorem after_append (sink : Sink) (front back : ByteArray) :
    sink.after (front ++ back) = (sink.after front).after back := by
  have hroom (room : Nat) : room - (front ++ back).size = room - front.size - back.size := by
    rw [ByteArray.size_append]
    omega
  simp only [after, ByteArray.append_assoc, Option.map_map, hroom]
  rfl

theorem Fits.after {sink : Sink} {front : ByteArray} {size : Nat}
    (h : sink.Fits (front.size + size)) : (sink.after front).Fits size := by
  intro room hroom
  obtain ⟨before, hbefore, rfl⟩ := Option.map_eq_some_iff.1 hroom
  have hle := h before hbefore
  omega

theorem Fits.mono {sink : Sink} {less more : Nat} (h : sink.Fits more) (hle : less ≤ more) :
    sink.Fits less :=
  fun room hroom => Nat.le_trans hle (h room hroom)

theorem room_after {sink : Sink} {room : Nat} (hroom : sink.room = some room) (bytes : ByteArray) :
    (sink.after bytes).room = some (room - bytes.size) := by
  rw [after, hroom, Option.map_some]

/-- It makes no difference in how many writes the bytes come. -/
theorem write_append (sink : Sink) (front back : ByteArray) :
    sink.write (front ++ back) =
      if (sink.write front).1 then (sink.write front).2.write back else sink.write front := by
  by_cases hwhole : sink.Fits (front ++ back).size
  · have hboth : sink.Fits (front.size + back.size) := ByteArray.size_append ▸ hwhole
    have hfront := write_of_fits (hboth.mono (Nat.le_add_right _ _))
    rw [write_of_fits hwhole, hfront, if_pos rfl, write_of_fits hboth.after, after_append]
  · cases hroom : sink.room with
    | none => exact absurd (fun room hmem => nomatch hroom.symm.trans hmem) hwhole
    | some room =>
      rw [fits_iff hroom, Nat.not_le] at hwhole
      rw [write_of_full hroom hwhole]
      rcases Nat.lt_or_ge room front.size with hfront | hfront
      · rw [write_of_full hroom hfront, extract_append_of_le (Nat.le_of_lt hfront)]
        rfl
      · rw [ByteArray.size_append] at hwhole
        rw [write_of_fits ((fits_iff hroom).2 hfront), if_pos rfl,
          write_of_full (room_after hroom front) (by omega), extract_append_of_ge hfront,
          after, ByteArray.append_assoc]

end Sink

/-! ## The writer -/

namespace JsonLines
variable {sink : Sink} {event : Event Matrix}

theorem run_put (writing : Writing) (text : String) (written : Nat) :
    (put writing text).run ⟨sink, written⟩ =
      match sink.write text.toUTF8 with
      | (true, sink) => .ok () ⟨sink, written⟩
      | (false, sink) => .error ⟨writing, "disk full"⟩ ⟨sink, written⟩ := by
  simp only [put, EStateM.run_bind, EStateM.run_get]
  rcases sink.write text.toUTF8 with ⟨_ | _, after⟩ <;> rfl

/-- The text and its newline go out as one write of the whole line would. -/
theorem exists_run_scene (sink : Sink) (event : Event Matrix) (written : Nat) :
    ∃ failure, (scene event).run ⟨sink, written⟩ =
      match sink.write event.line with
      | (true, sink) => .ok () ⟨sink, written + 1⟩
      | (false, sink) => .error failure ⟨sink, written⟩ := by
  rw [Event.line, Sink.write_append, scene, EStateM.run_bind, run_put]
  rcases sink.write event.json.toUTF8 with ⟨_ | _, between⟩
  · exact ⟨⟨.text, "disk full"⟩, rfl⟩
  · refine ⟨⟨.newline, "disk full"⟩, ?_⟩
    dsimp only
    rw [EStateM.run_bind, run_put, if_pos rfl]
    rcases between.write "\n".toUTF8 with ⟨_ | _, after⟩ <;> rfl

theorem run_scene_of_fits (h : sink.Fits event.line.size) (written : Nat) :
    (scene event).run ⟨sink, written⟩ = .ok () ⟨sink.after event.line, written + 1⟩ := by
  obtain ⟨failure, hrun⟩ := exists_run_scene sink event written
  rwa [Sink.write_of_fits h] at hrun

theorem run_scene_of_full {room : Nat} (hroom : sink.room = some room)
    (h : room < event.line.size) (written : Nat) :
    ∃ failure, (scene event).run ⟨sink, written⟩ = .error failure
      ⟨⟨sink.bytes ++ event.line.extract 0 room, some 0, sink.flushes⟩, written⟩ := by
  obtain ⟨failure, hrun⟩ := exists_run_scene sink event written
  rw [Sink.write_of_full hroom h] at hrun
  exact ⟨failure, hrun⟩

theorem accepts_of_fits {events : List (Event Matrix)} (h : sink.Fits (eventLines events).size)
    (written : Nat) :
    scene.Accepts ⟨sink, written⟩ events
      ⟨sink.after (eventLines events), written + events.length⟩ := by
  induction events generalizing sink written with
  | nil =>
    rw [eventLines, Sink.after_empty]
    exact .nil _
  | cons event events ih =>
    rw [eventLines, ByteArray.size_append] at h
    refine .cons (run_scene_of_fits (h.mono (Nat.le_add_right _ _)) written) ?_
    rw [eventLines, Sink.after_append, List.length_cons, Nat.add_comm events.length,
      ← Nat.add_assoc]
    exact ih h.after (written + 1)

theorem run_give_of_fits {α : Type} {d : Delivery Matrix α}
    (h : sink.Fits (eventLines d.events).size) (written : Nat) :
    (d.give scene).run ⟨sink, written⟩ =
      (Delivery.finish d.result).run
        ⟨sink.after (eventLines d.events), written + d.events.length⟩ :=
  (accepts_of_fits h written).run_feed_bind _

/-- The first `room` bytes go out: some whole lines, and of the next one a part without its end. -/
theorem run_give_of_full {α : Type} {d : Delivery Matrix α} {room : Nat}
    (hroom : sink.room = some room) (h : room < (eventLines d.events).size) (written : Nat) :
    ∃ failure count rest,
      (d.give scene).run ⟨sink, written⟩ = .error (.scene failure)
        ⟨⟨sink.bytes ++ (eventLines d.events).extract 0 room, some 0, sink.flushes⟩,
          written + count⟩ ∧
      count ≤ d.events.length ∧ newlines rest = 0 ∧
      (eventLines d.events).extract 0 room = eventLines (d.events.take count) ++ rest := by
  obtain ⟨before, event, later, hevents, hfits, hcut⟩ := exists_cut h
  obtain ⟨failure, hrefused⟩ := run_scene_of_full (Sink.room_after hroom (eventLines before)) hcut
    (written + before.length)
  have hrun := (accepts_of_fits ((Sink.fits_iff hroom).2 hfits) written).run_feed_refused hrefused
    later fun _ => Delivery.finish d.result
  have hextract : (eventLines d.events).extract 0 room =
      eventLines before ++ event.line.extract 0 (room - (eventLines before).size) := by
    rw [hevents, eventLines_append, extract_append_of_ge hfits, eventLines,
      extract_append_of_le (Nat.le_of_lt hcut)]
  refine ⟨failure, before.length, event.line.extract 0 (room - (eventLines before).size), ?_, ?_,
    newlines_extract_line hcut, ?_⟩
  · rw [Delivery.give, hextract, hevents, hrun, Sink.after, ByteArray.append_assoc]
  · rw [hevents, List.length_append]
    omega
  · rw [hextract, hevents, List.take_left]

/-- A sink of its own room holds what fits of the lines, and the count is that of its newlines. -/
theorem run_give_ofRoom {α : Type} (d : Delivery Matrix α) (n : Nat) :
    let lines := eventLines d.events
    ∃ cut : JsonLines,
      cut.sink.bytes = lines.extract 0 (min n lines.size) ∧
      cut.written = newlines cut.sink.bytes ∧
      (∃ rest, newlines rest = 0 ∧
        cut.sink.bytes = eventLines (d.events.take cut.written) ++ rest) ∧
      ((n < lines.size ∧ ∃ failure,
          (d.give scene).run (.on (.ofRoom n)) = .error (.scene failure) cut) ∨
        (lines.size ≤ n ∧ cut.written = d.events.length ∧
          (d.give scene).run (.on (.ofRoom n)) = (Delivery.finish d.result).run cut)) := by
  intro lines
  have hroom : (Sink.ofRoom n).room = some n := rfl
  rcases Nat.lt_or_ge n lines.size with hlt | hge
  · obtain ⟨failure, count, rest, hrun, hcount, hrest, hsplit⟩ := run_give_of_full hroom hlt 0
    have hbytes : (Sink.ofRoom n).bytes ++ lines.extract 0 n = lines.extract 0 n :=
      ByteArray.empty_append
    rw [hbytes, Nat.zero_add] at hrun
    refine ⟨_, ?_, ?_, ⟨rest, hrest, hsplit⟩, .inl ⟨hlt, failure, hrun⟩⟩
    · rw [Nat.min_eq_left (Nat.le_of_lt hlt)]
    · change count = newlines (lines.extract 0 n)
      rw [hsplit, newlines_append, newlines_eventLines, hrest, List.length_take_of_le hcount]
      rfl
  · have hrun := run_give_of_fits (d := d) ((Sink.fits_iff hroom).2 hge) 0
    have hbytes : ((Sink.ofRoom n).after lines).bytes = lines := ByteArray.empty_append
    rw [Nat.zero_add] at hrun
    refine ⟨_, ?_, ?_, ⟨.empty, rfl, ?_⟩, .inr ⟨hge, rfl, hrun⟩⟩
    · rw [hbytes, Nat.min_eq_right hge, ByteArray.extract_zero_size]
    · rw [hbytes, newlines_eventLines]
    · rw [hbytes, List.take_length, ByteArray.append_empty]

end JsonLines

/-- Whatever the room, the sink gets the beginning of what one without bounds gets, as much of it as
there is room for. The count of written events is that of the newlines gone out, each at the end of
its event, and the build fails just if something is missing. -/
theorem build_into_sink {source : String} {p : Program Matrix} (h : compile source = .ok p)
    (options : Options) (n : Nat) :
    let events := (delivered source options).events
    ∃ stats full cut,
      (build source options JsonLines.scene).run (.on .unlimited) = .ok stats full ∧
      full.sink.bytes = eventLines events ∧
      full.written = stats.objects + 2 ∧
      cut.sink.bytes = full.sink.bytes.extract 0 (min n full.sink.bytes.size) ∧
      cut.written = newlines cut.sink.bytes ∧
      (∃ rest, newlines rest = 0 ∧
        cut.sink.bytes = eventLines (events.take cut.written) ++ rest) ∧
      ((n < full.sink.bytes.size ∧ ∃ failure,
          (build source options JsonLines.scene).run (.on (.ofRoom n)) =
            .error (.scene failure) cut) ∨
        (full.sink.bytes.size ≤ n ∧ cut.written = stats.objects + 2 ∧
          (build source options JsonLines.scene).run (.on (.ofRoom n)) = .ok stats cut)) := by
  intro events
  obtain ⟨drawings, after, hexpands⟩ := exists_expands_of_compile h options
  obtain ⟨hdelivered, hobjects⟩ := delivered_of_expands h hexpands
  have hresult : (delivered source options).result = .ok after.stats := by rw [hdelivered]
  have hlength : events.length = after.stats.objects + 2 := by
    have hevents : events = p.opening ++ drawings.map .draw := congrArg Delivery.events hdelivered
    have htwo : p.opening.length = 2 := rfl
    rw [hevents, List.length_append, List.length_map]
    omega
  have hfull : (build source options JsonLines.scene).run (.on .unlimited) =
      .ok after.stats ⟨Sink.unlimited.after (eventLines events), events.length⟩ := by
    have hfits : Sink.unlimited.Fits (eventLines events).size := nofun
    have hrun := JsonLines.run_give_of_fits hfits 0
    rw [hresult, Nat.zero_add] at hrun
    rw [build_eq_give]
    exact hrun
  have hbytes : (Sink.unlimited.after (eventLines events)).bytes = eventLines events :=
    ByteArray.empty_append
  obtain ⟨cut, hcut, hwritten, hlines, hend⟩ :=
    JsonLines.run_give_ofRoom (delivered source options) n
  rw [← build_eq_give, hresult, hlength] at hend
  refine ⟨after.stats, _, cut, hfull, hbytes, hlength, ?_, hwritten, hlines, ?_⟩
  · rw [hbytes]
    exact hcut
  · rw [hbytes]
    exact hend

theorem build_into_sink_towers :
    ∃ p, compile towers = .ok p ∧ ∃ stats full cut failure,
      (build towers .none JsonLines.scene).run (.on .unlimited) = .ok stats full ∧
      full.written = stats.objects + 2 ∧
      (build towers .none JsonLines.scene).run (.on (.ofRoom 1)) = .error (.scene failure) cut ∧
      cut.sink.bytes = full.sink.bytes.extract 0 (min 1 full.sink.bytes.size) ∧
      cut.written = newlines cut.sink.bytes := by
  have hsome := towers_compiles
  cases hp : compile towers with
  | error faults =>
    rw [hp] at hsome
    cases hsome
  | ok p =>
    obtain ⟨stats, full, cut, hfull, -, hwritten, hcut, hnewlines, -, hend⟩ :=
      build_into_sink hp .none 1
    have hsize : cut.sink.bytes.size ≤ 1 := by
      rw [hcut, ByteArray.size_extract]
      omega
    have hcount : newlines cut.sink.bytes ≤ cut.sink.bytes.size := List.count_le_length
    rcases hend with ⟨-, failure, hrun⟩ | ⟨-, hall, -⟩
    · exact ⟨p, rfl, stats, full, cut, failure, hfull, hwritten, hrun, hcut, hnewlines⟩
    · omega

end SceneGrammar
