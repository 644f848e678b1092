import SceneGrammar.Proofs.Grammar.Operands

/-!
# Settings and directives are read as phrases

A list of colours goes on as long as commas follow, so that a setting must not be followed by one.
-/

namespace SceneGrammar.Parser

variable {scope : Scope} {tokens rest : List Token}

theorem repeats_nextColor : Repeats commaAhead nextColor NextColorPhrase anything where
  sound := by
    intro scope tokens c rest _ h
    obtain ⟨line, more, rfl, hmore⟩ := bind_expect_eq_ok h
    obtain ⟨front, rfl, hfront⟩ := Reads.sound reads_color hmore
    exact ⟨_, rfl, .comma line hfront⟩
  complete := by
    rintro scope front c rest ⟨line, hc⟩ -
    rw [List.cons_append, nextColor, bind_expect, Reads.complete reads_color hc trivial]
  begins := by
    rintro scope front c rest ⟨line, hc⟩
    rfl
  next _ _ := trivial

theorem reads_moreColors : Reads (many commaAhead nextColor advances_nextColor)
    (fun b => RepeatedPhrase (NextColorPhrase b)) (notAhead .comma) :=
  Repeats.reads_many repeats_nextColor fun {_ rest} h => by
    cases rest with
    | nil => exact ⟨rfl, trivial⟩
    | cons t rest => exact ⟨decide_eq_false (h t rfl), trivial⟩

/-- Nothing that is set minds what follows, unless it is a list of colours. -/
theorem complete_pool {front : List Token} {value : Pool}
    (h : PoolPhrase scope.definitions front value)
    (hr : ∀ colors, value = .list colors → notAhead .comma scope.definitions rest) :
    pool scope (front ++ rest) = .ok (value, rest) := by
  rcases h with line | line | line | ⟨line, hc, hf, hm⟩
  · rfl
  · rfl
  · rfl
  · rw [List.cons_append, pool, bind_next]
    dsimp only [Keyword.token]
    rw [List.append_assoc, List.append_assoc, bind_optional _ hc,
      Reads.bind_ok reads_color hf trivial, Reads.bind_ok reads_moreColors hm (hr _ rfl)]
    · rfl
    · exact notAhead_of_colorPhrase _ hf _

theorem reads_pool : Reads pool PoolPhrase (notAhead .comma) where
  sound := by
    intro scope tokens pool rest h
    obtain ⟨⟨lexeme, line⟩, more, rfl, hmore⟩ := bind_next_eq_ok h
    cases lexeme with
    | number | color | name => cases hmore
    | keyword k =>
      cases k with
      | randomHue =>
        cases hmore
        exact ⟨_, rfl, .randomHue line⟩
      | randomRgb =>
        cases hmore
        exact ⟨_, rfl, .randomRgb line⟩
      | greyscale =>
        cases hmore
        exact ⟨_, rfl, .greyscale line⟩
      | list =>
        obtain ⟨colon, after, rfl, hcolon, hafter⟩ := bind_optional_eq_ok hmore
        obtain ⟨first, ts, others, rfl, hfirst, hothers⟩ := Reads.bind_eq_ok reads_color hafter
        obtain ⟨more, us, last, rfl, hmany, hlast⟩ := Reads.bind_eq_ok reads_moreColors hothers
        cases hlast
        exact ⟨_, by simp [Keyword.token], .list line hcolon hfirst hmany⟩
      | _ => cases hmore
  complete h hr := complete_pool h fun _ _ => hr

theorem sound_setting {key : Token} {value : Setting}
    (h : setting key scope tokens = .ok (value, rest)) :
    ∃ front, tokens = front ++ rest ∧ SettingPhrase scope.definitions (key :: front) value := by
  obtain ⟨lexeme, line⟩ := key
  cases lexeme with
  | number | color | name => cases h
  | keyword k =>
    cases k with
    | maxDepth => exact Reads.sound_return reads_depth (.maxDepth line) h
    | maxObjects => exact Reads.sound_return reads_natural (.maxObjects line) h
    | minSize => exact Reads.sound_return reads_number (.minSize line) h
    | maxSize => exact Reads.sound_return reads_number (.maxSize line) h
    | seed =>
      obtain ⟨line', more, rfl, hmore⟩ | hmore := bind_accept_eq_ok h
      · cases hmore
        exact ⟨[_], rfl, .initialSeed line line'⟩
      · exact Reads.sound_return reads_integer (.seed line) hmore
    | colorPool => exact Reads.sound_return reads_pool (.pool line) h
    | _ => cases h

/-- The words that both rules and programs set something with. -/
def settingWords : List Keyword := [.maxDepth, .maxObjects, .minSize, .maxSize, .seed, .colorPool]

theorem complete_setting {ts : List Token} {value : Setting}
    (h : SettingPhrase scope.definitions ts value)
    (hr : ∀ colors, value = .pool (.list colors) → notAhead .comma scope.definitions rest) :
    ∃ k ∈ settingWords, ∃ line front, ts = k.token line :: front ∧
      setting (k.token line) scope (front ++ rest) = .ok (value, rest) := by
  cases h with
  | @maxDepth ts n line hn =>
    exact ⟨.maxDepth, by decide, line, ts, rfl, Reads.bind_ok reads_depth hn trivial⟩
  | @maxObjects ts n line hn =>
    exact ⟨.maxObjects, by decide, line, ts, rfl, Reads.bind_ok reads_natural hn trivial⟩
  | @minSize ts x line hx =>
    exact ⟨.minSize, by decide, line, ts, rfl, Reads.bind_ok reads_number hx trivial⟩
  | @maxSize ts x line hx =>
    exact ⟨.maxSize, by decide, line, ts, rfl, Reads.bind_ok reads_number hx trivial⟩
  | initialSeed line line' => exact ⟨.seed, by decide, line, _, rfl, rfl⟩
  | @seed ts n line hn =>
    obtain ⟨hx⟩ := hn
    have habsent := notAhead_of_numberPhrase .initial hx rest
    exact ⟨.seed, by decide, line, ts, rfl,
      (bind_accept_absent _ habsent).trans (Reads.bind_ok reads_integer (.nearest hx) trivial)⟩
  | @pool ts pool line hp =>
    have hread := complete_pool hp fun colors he => hr colors (congrArg Setting.pool he)
    exact ⟨.colorPool, by decide, line, ts, rfl, Parser.bind_ok hread⟩

theorem complete_directive {front : List Token} {value : Directive}
    (h : DirectivePhrase scope.definitions front value)
    (hr : ∀ colors, value = .setting (.pool (.list colors)) →
      notAhead .comma scope.definitions rest) :
    directive scope (front ++ rest) = .ok (value, rest) := by
  cases h with
  | @background ts c line hc => exact Reads.bind_ok reads_color hc trivial
  | @offset ts v line hv => exact (reads_vector 3).bind_ok hv trivial
  | @rotation ts v line hv => exact (reads_vector 9).bind_ok hv trivial
  | @pivot ts v line hv => exact (reads_vector 3).bind_ok hv trivial
  | @scale ts x line hx => exact Reads.bind_ok reads_number hx trivial
  | @setting ts value hs =>
    obtain ⟨k, hk, line, front, rfl, hset⟩ :=
      complete_setting hs fun colors he => hr colors (congrArg Directive.setting he)
    simp only [settingWords, List.mem_cons, List.not_mem_nil, or_false] at hk
    rcases hk with rfl | rfl | rfl | rfl | rfl | rfl <;> exact Parser.bind_ok hset

theorem reads_directive : Reads directive DirectivePhrase (notAhead .comma) where
  sound := by
    intro scope tokens value rest h
    obtain ⟨⟨lexeme, line⟩, more, rfl, hmore⟩ := bind_next_eq_ok h
    have other (hs : (do return .setting (← setting ⟨lexeme, line⟩) : Parser Directive) scope more =
        .ok (value, rest)) : ∃ front, ⟨lexeme, line⟩ :: more = front ++ rest ∧
          DirectivePhrase scope.definitions front value := by
      obtain ⟨value, middle, hvalue, hmiddle⟩ := bind_eq_ok hs
      cases hmiddle
      obtain ⟨front, rfl, hfront⟩ := sound_setting hvalue
      exact ⟨_, rfl, .setting hfront⟩
    cases lexeme with
    | number | color | name => exact other hmore
    | keyword k =>
      cases k with
      | background =>
        exact exists_front_cons (Reads.sound_return reads_color (.background line) hmore)
      | cameraOffset =>
        exact exists_front_cons ((reads_vector 3).sound_return (.offset line) hmore)
      | cameraRotation =>
        exact exists_front_cons ((reads_vector 9).sound_return (.rotation line) hmore)
      | pivot => exact exists_front_cons ((reads_vector 3).sound_return (.pivot line) hmore)
      | scale => exact exists_front_cons (Reads.sound_return reads_number (.scale line) hmore)
      | _ => exact other hmore
  complete h hr := complete_directive h fun _ _ => hr

end SceneGrammar.Parser
