import SceneGrammar.Proofs.Expansion.Delivery

/-!
# Scenes that refuse an event

A build comes to its end as if alone, up to the event that its scene refuses: the events before that
one are accepted in their order, the scene stays as the refusal has left it, and the refusal is the
result.
-/

namespace SceneGrammar

namespace Scene
variable {M σ ε α : Type}

theorem Accepts.run_feed_refused {scene : Scene M σ ε} {s s₁ s₂ : σ} {before : List (Event M)}
    {event : Event M} {failure : ε} (h : scene.Accepts s before s₁)
    (he : (scene event).run s₁ = .error failure s₂) (later : List (Event M))
    (go : Unit → EStateM (BuildError ε) σ α) :
    (scene.feed (before ++ event :: later) >>= go).run s = .error (.scene failure) s₂ := by
  rw [feed_append, bind_assoc, h.run_feed_bind, feed, bind_assoc, run_adaptExcept_bind, he]

/-- Coming from `s` the scene accepts `k` events, whatever they are, and refuses the next. -/
structure RefusesAfter (scene : Scene M σ ε) (s : σ) (k : Nat) (failure : ε) : Prop where
  accepts {events : List (Event M)} {s₁ : σ} (h : scene.Accepts s events s₁)
    (hk : events.length < k) (event : Event M) : ∃ s₂, (scene event).run s₁ = .ok () s₂
  refuses {events : List (Event M)} {s₁ : σ} (h : scene.Accepts s events s₁)
    (hk : events.length = k) (event : Event M) : ∃ s₂, (scene event).run s₁ = .error failure s₂

theorem RefusesAfter.exists_accepts {scene : Scene M σ ε} {s : σ} {k : Nat} {failure : ε}
    (h : scene.RefusesAfter s k failure) {before : List (Event M)} {s₁ : σ}
    (hb : scene.Accepts s before s₁) (events : List (Event M))
    (hk : before.length + events.length ≤ k) : ∃ s₂, scene.Accepts s₁ events s₂ := by
  induction events generalizing before s₁ with
  | nil => exact ⟨s₁, .nil s₁⟩
  | cons event events ih =>
    rw [List.length_cons] at hk
    obtain ⟨s₂, he⟩ := h.accepts hb (by omega) event
    have hbefore := hb.append (.cons he (.nil s₂))
    obtain ⟨s₃, hlater⟩ := ih hbefore (by rw [List.length_append, List.length_singleton]; omega)
    exact ⟨s₃, .cons he hlater⟩

theorem run_limitedRecorder (room : Nat) (full : ε) (event : Event M) (kept : Array (Event M)) :
    (limitedRecorder room full event).run kept =
      if kept.size = room then .error full kept else .ok () (kept.push event) := by
  change EStateM.run (if kept.size = room then throw full else recorder event) kept = _
  split <;> rfl

theorem size_of_accepts_limitedRecorder {room : Nat} {full : ε} {kept kept' : Array (Event M)}
    {events : List (Event M)} (h : (limitedRecorder room full).Accepts kept events kept') :
    kept'.size = kept.size + events.length := by
  induction h with
  | nil kept => rfl
  | @cons kept kept₁ _ event events he _ ih =>
    rw [run_limitedRecorder] at he
    split at he
    · cases he
    · cases he
      rw [ih, Array.size_push, List.length_cons]
      omega

theorem refusesAfter_limitedRecorder (room : Nat) (full : ε) :
    (limitedRecorder (M := M) room full).RefusesAfter #[] room full where
  accepts {events kept} h hk event := by
    have hsize := size_of_accepts_limitedRecorder h
    rw [Array.size_empty, Nat.zero_add] at hsize
    rw [run_limitedRecorder, if_neg (by omega)]
    exact ⟨_, rfl⟩
  refuses {events kept} h hk event := by
    have hsize := size_of_accepts_limitedRecorder h
    rw [Array.size_empty, Nat.zero_add] at hsize
    rw [run_limitedRecorder, if_pos (by omega)]
    exact ⟨_, rfl⟩

end Scene

theorem Scene.RefusesAfter.run_give {M σ ε α : Type} {scene : Scene M σ ε} {s : σ} {k : Nat}
    {failure : ε} (h : scene.RefusesAfter s k failure) (d : Delivery M α) :
    ∃ s₁, scene.Accepts s (d.events.take k) s₁ ∧
      (∀ hk : k < d.events.length, ∃ s₂, (scene d.events[k]).run s₁ = .error failure s₂ ∧
        (d.give scene).run s = .error (.scene failure) s₂) ∧
      (d.events.length ≤ k → (d.give scene).run s = (Delivery.finish d.result).run s₁) := by
  have htake : (d.events.take k).length ≤ k := List.length_take_le k d.events
  obtain ⟨s₁, haccepts⟩ := h.exists_accepts (.nil s) (d.events.take k)
    (by rw [List.length_nil]; omega)
  refine ⟨s₁, haccepts, fun hk => ?_, fun hk => ?_⟩
  · have hlength : (d.events.take k).length = k := List.length_take_of_le (Nat.le_of_lt hk)
    obtain ⟨s₂, he⟩ := h.refuses haccepts hlength d.events[k]
    have hsplit : d.events.take k ++ d.events[k] :: d.events.drop (k + 1) = d.events := by
      rw [← List.drop_eq_getElem_cons hk, List.take_append_drop]
    have hrefused := haccepts.run_feed_refused he (d.events.drop (k + 1))
      fun _ => Delivery.finish d.result
    rw [hsplit] at hrefused
    exact ⟨s₂, he, hrefused⟩
  · rw [List.take_of_length_le hk] at haccepts
    exact haccepts.run_feed_bind _

/-- Nothing comes without a program, and nothing before the background and the camera. A scene may
only refuse: what it has accepted is the beginning of what any other accepts, and after the refusal
it is not called again. -/
theorem build_stops_at_refusal (source : String) (options : Options) :
    let all := delivered source options
    (all.events = [] ↔ ∃ faults, compile source = .error faults) ∧
    (∀ p, compile source = .ok p → ∃ (drawings : List (Drawing Matrix)) (stats : Stats),
      all.events = .background p.settings.background :: .camera p.settings.camera ::
        drawings.map .draw ∧
      all.result = .ok stats ∧ stats.objects = drawings.length) ∧
    ∀ {σ ε : Type} (scene : Scene Matrix σ ε) (s : σ),
      build source options scene = all.give scene ∧
      (scene.NeverFails → ∃ s', scene.Accepts s all.events s' ∧
        (build source options scene).run s = (Delivery.finish all.result).run s') ∧
      ∀ k failure, scene.RefusesAfter s k failure →
        ∃ s₁, scene.Accepts s (all.events.take k) s₁ ∧
          (∀ hk : k < all.events.length, ∃ s₂,
            (scene all.events[k]).run s₁ = .error failure s₂ ∧
              (build source options scene).run s = .error (.scene failure) s₂) ∧
          (all.events.length ≤ k →
            (build source options scene).run s = (Delivery.finish all.result).run s₁) := by
  intro all
  refine ⟨?_, ?_, ?_⟩
  · cases hc : compile source with
    | error faults => simp [all, delivered_of_error hc]
    | ok p =>
      obtain ⟨drawings, after, hexpands⟩ := exists_expands_of_compile hc options
      simp [all, (delivered_of_expands hc hexpands).1, Program.opening]
  · intro p hc
    obtain ⟨drawings, after, hexpands⟩ := exists_expands_of_compile hc options
    obtain ⟨hall, hobjects⟩ := delivered_of_expands hc hexpands
    exact ⟨drawings, after.stats, congrArg Delivery.events hall, congrArg Delivery.result hall,
      hobjects⟩
  · intro σ ε scene s
    have hgive := build_eq_give source options scene
    refine ⟨hgive, ?_, ?_⟩
    · intro hn
      rw [hgive]
      exact hn.run_give all s
    · intro k failure hr
      rw [hgive]
      exact hr.run_give all

theorem build_stops_at_refusal_towers :
    ∃ p, compile towers = .ok p ∧
      (Scene.recorder : Scene Matrix (Array (Event Matrix)) Empty).NeverFails ∧
      (Scene.limitedRecorder 1 "full" : Scene Matrix (Array (Event Matrix)) String).RefusesAfter
        #[] 1 "full" ∧
      (∃ stats kept, (build towers ⟨some 5, some 40⟩ (Scene.recorder (ε := Empty))).run #[] =
        .ok stats kept) ∧
      ∃ kept, (build towers ⟨some 5, some 40⟩ (Scene.limitedRecorder 1 "full")).run #[] =
        .error (.scene "full") kept := by
  have hsome := towers_compiles
  cases hc : compile towers with
  | error faults => rw [hc] at hsome; cases hsome
  | ok p =>
    have hr := Scene.refusesAfter_limitedRecorder (M := Matrix) 1 "full"
    obtain ⟨-, hall, hscene⟩ := build_stops_at_refusal towers ⟨some 5, some 40⟩
    obtain ⟨drawings, stats, hevents, hresult, -⟩ := hall p hc
    obtain ⟨-, hrecorder, -⟩ := hscene (Scene.recorder (ε := Empty)) #[]
    obtain ⟨-, -, hlimited⟩ := hscene (Scene.limitedRecorder 1 "full") #[]
    obtain ⟨kept, -, hrun⟩ := hrecorder Scene.neverFails_recorder
    obtain ⟨_, -, hrefused, -⟩ := hlimited 1 "full" hr
    obtain ⟨kept', -, hstop⟩ := hrefused (by rw [hevents]; simp)
    rw [hresult] at hrun
    exact ⟨p, rfl, Scene.neverFails_recorder, hr, ⟨stats, kept, hrun⟩, kept', hstop⟩

end SceneGrammar
