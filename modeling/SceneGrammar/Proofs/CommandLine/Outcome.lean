import Mathlib
import SceneGrammar.Proofs.CommandLine.Files
import SceneGrammar.Proofs.Output.FullSink

/-!
# What a session comes to

In a world where the program can be read and the output can be made, a session ends by what its
text compiles to, and the three kinds of session end alike: what one prints the other leaves in its
file, and checking fails just where building does. Where they fail, the file has been made all the
same, so that it is empty whatever it held before.
-/

namespace SceneGrammar

open Arguments (Session guarded readSource)

theorem fromUTF8?_toUTF8 (text : String) : String.fromUTF8? text.toUTF8 = some text := by
  have hvalid : text.toUTF8.IsValidUTF8 := text.isValidUTF8
  unfold String.fromUTF8?
  rw [dif_pos hvalid]
  rfl

namespace World

def outcome (w : World) (a : Arguments) : Except SessionError Unit × World :=
  (a.run (m := StateM World)).run.run w

def withReport (w : World) (report : Report) : World :=
  { w with reports := w.reports ++ [report] }

section
variable {α β : Type} {w after : World}

theorem run_session_bind {act : Session (StateM World) α} {value : α}
    (h : act.run.run w = (.ok value, after)) (go : α → Session (StateM World) β) :
    (act >>= go).run.run w = (go value).run.run after := by
  rw [ExceptT.run_bind, StateT.run_bind, h]
  rfl

theorem run_session_lift {act : StateM World α} {value : α} (h : act.run w = (value, after)) :
    (liftM act : Session (StateM World) α).run.run w = (.ok value, after) := by
  have hlift : (ExceptT.lift act : Session (StateM World) α).run.run w = (.ok value, after) := by
    rw [ExceptT.run_lift, StateT.run_map, h]
    rfl
  exact hlift

theorem run_guarded {act : StateM World (Except String α)} {value : α}
    (h : act.run w = (.ok value, after)) (fault : String → SessionError) :
    (guarded fault act).run.run w = (.ok value, after) :=
  run_session_bind (run_session_lift h) _

theorem run_readSource {path source : String} (h : w.readAt path = .ok source.toUTF8) :
    (readSource (m := StateM World) path).run.run w = (.ok source, w) := by
  have hread : (Host.read path : StateM World _).run w = (.ok source.toUTF8, w) := by
    change (((w.readAt path).mapError PathFault.message), w) = _
    rw [h]
    rfl
  rw [readSource, run_session_bind (run_guarded hread _)]
  simp only [fromUTF8?_toUTF8]
  rfl

theorem run_store {path : String} {l : Location} (h : w.target path = .ok l)
    (bytes : ByteArray) : (store path bytes).run w = (.ok (), w.withFile l bytes) := by
  have hwrite := writeAt_of_target h bytes
  simp only [store, StateT.run_bind, StateT.run_get, pure_bind, hwrite]
  rfl

theorem run_create {path : String} {l : Location} (h : w.target path = .ok l) :
    (Host.create path : StateM World _).run w = (.ok (), w.withFile l .empty) :=
  run_store h .empty

end

/-! ## Builds -/

section
variable {w after : World} {a : Arguments} {source path : String} {l : Location}
  {lines : JsonLines}

theorem run_deliver_filed (hout : a.output = some path) (h : w.target path = .ok l) :
    (a.deliver lines : StateM World _).run w = (.ok (), w.withFile l lines.sink.bytes) := by
  rw [Arguments.deliver, hout]
  exact run_store h lines.sink.bytes

theorem run_runBuild_filed (hout : a.output = some path) (h : w.target path = .ok l) :
    (a.runBuild (m := StateM World) source).run.run w =
      match a.buildLines source with
      | .ok stats lines =>
        (.ok (), (w.withFile l lines.sink.bytes).withReport (.written lines.written stats))
      | .error e lines => (.error (.building a.input e), w.withFile l lines.sink.bytes) := by
  have hmade := target_withFile h .empty
  unfold Arguments.runBuild
  rw [hout]
  dsimp only
  rw [run_session_bind (run_guarded (run_create h) (.creating path))]
  cases a.buildLines source with
  | ok stats lines =>
    dsimp only
    rw [run_session_bind (run_guarded (run_deliver_filed hout hmade) _), withFile_withFile]
    rfl
  | error e lines =>
    dsimp only
    rw [run_session_bind (run_session_lift (run_deliver_filed hout hmade)), withFile_withFile]
    rfl

theorem outcome_of_readAt (h : w.readAt a.input = .ok source.toUTF8) :
    w.outcome a = if a.check then (a.runCheck (m := StateM World) source).run.run w
      else (a.runBuild (m := StateM World) source).run.run w := by
  rw [outcome, Arguments.run, run_session_bind (run_readSource h)]
  split <;> rfl

theorem buildLines_of_error {faults : List Diagnostic} (h : compile source = .error faults) :
    a.buildLines source = .error (.rejected faults) (.on .unlimited) :=
  run_build_of_error h a.options JsonLines.scene (.on .unlimited)

theorem outcome_filed_of_error {faults : List Diagnostic}
    (hread : w.readAt a.input = .ok source.toUTF8) (hc : compile source = .error faults)
    (hcheck : a.check = false) (hout : a.output = some path) (h : w.target path = .ok l) :
    w.outcome a = (.error (.building a.input (.rejected faults)), w.withFile l .empty) := by
  rw [outcome_of_readAt hread, hcheck, if_neg Bool.false_ne_true, run_runBuild_filed hout h,
    buildLines_of_error hc]
  rfl

end

/-- A build of a text that does not compile fails and changes nothing but the file it was to write.
Whatever that file held before, it is empty then. -/
theorem outcome_of_rejected {w : World} {a : Arguments} {source path : String}
    {faults : List Diagnostic} {old : ByteArray} (hread : w.readAt a.input = .ok source.toUTF8)
    (hc : compile source = .error faults) (hcheck : a.check = false)
    (hout : a.output = some path) (hold : w.readAt path = .ok old) :
    ∃ l after, w.target path = .ok l ∧ w.files.lookup l = some old ∧
      w.outcome a = (.error (.building a.input (.rejected faults)), after) ∧
      after.readAt path = .ok .empty ∧
      (∀ other, other ≠ l → after.files.lookup other = w.files.lookup other) ∧
      after.printed = w.printed ∧ after.reports = w.reports := by
  obtain ⟨l, htarget, hlookup⟩ := exists_target_of_readAt hold
  refine ⟨l, w.withFile l .empty, htarget, hlookup,
    outcome_filed_of_error hread hc hcheck hout htarget, readAt_withFile htarget .empty, ?_, rfl,
    rfl⟩
  intro other hne
  exact lookup_withFile_of_ne w hne .empty

/-- A program and the scene that was made from an earlier one. -/
def workshop (source : String) : World where
  files := [(⟨.above 0, ["in"]⟩, source.toUTF8), (⟨.above 0, ["out"]⟩, "earlier".toUTF8)]
  printed := .empty
  reports := []

theorem readAt_workshop (source : String) :
    (workshop source).readAt "in" = .ok source.toUTF8 ∧
      (workshop source).readAt "out" = .ok "earlier".toUTF8 := by
  have hsource : Path.ofText "in" = .ok ⟨.working, [], .enter "in", false⟩ := by cbv
  have hscene : Path.ofText "out" = .ok ⟨.working, [], .enter "out", false⟩ := by cbv
  exact ⟨readAt_eq_ok_iff.2 ⟨_, .working, _, hsource, ⟨rfl, rfl, rfl, by decide⟩, rfl⟩,
    readAt_eq_ok_iff.2 ⟨_, .working, _, hscene, ⟨rfl, rfl, rfl, by decide⟩, rfl⟩⟩

theorem compile_tower : (compile "tower").toOption.isSome = false := by decide +kernel

theorem outcome_of_rejected_tower :
    ∃ faults l after, compile "tower" = .error faults ∧
      (workshop "tower").files.lookup l = some "earlier".toUTF8 ∧
      (workshop "tower").outcome ⟨"in", some "out", none, some 5, false⟩ =
        (.error (.building "in" (.rejected faults)), after) ∧
      after.readAt "out" = .ok .empty ∧ after.printed = .empty := by
  obtain ⟨hread, hold⟩ := readAt_workshop "tower"
  cases hc : compile "tower" with
  | ok p =>
    have hnone := compile_tower
    rw [hc] at hnone
    cases hnone
  | error faults =>
    obtain ⟨l, after, -, hlookup, hrun, hempty, -, hprinted, -⟩ :=
      outcome_of_rejected (a := ⟨"in", some "out", none, some 5, false⟩) hread hc rfl rfl hold
    exact ⟨faults, l, after, rfl, hlookup, hrun, hempty, hprinted⟩

/-- What was made earlier is lost to a text that compiles to nothing. -/
theorem rejected_loses_output :
    ∃ faults after, compile "tower" = .error faults ∧
      (workshop "tower").outcome ⟨"in", some "out", none, none, false⟩ =
        (.error (.building "in" (.rejected faults)), after) ∧
      after.readAt "out" ≠ (workshop "tower").readAt "out" := by
  obtain ⟨hread, hold⟩ := readAt_workshop "tower"
  obtain ⟨l, htarget, -⟩ := exists_target_of_readAt hold
  cases hc : compile "tower" with
  | ok p =>
    have hnone := compile_tower
    rw [hc] at hnone
    cases hnone
  | error faults =>
    refine ⟨faults, _, rfl, outcome_filed_of_error hread hc rfl rfl htarget, ?_⟩
    rw [readAt_withFile htarget, hold]
    intro h
    have hsize := congrArg (fun read => read.toOption.map ByteArray.size) h
    revert hsize
    decide

end World

end SceneGrammar
