import Mathlib.Algebra.Order.Group.MinMax
import SceneGrammar.Color.Hsv
import SceneGrammar.Proofs.Number.Rational

/-!
# Colours on the circle of hues

Around the circle the lead goes from red over green to blue. Between the places of two leads the
second channel rises or falls with the distance, so a hue tells which channel leads and what the
other two are above the least. Without rounding, nothing of a colour is lost on the way.
-/

namespace SceneGrammar
open Scalar

/-! ## Sextants -/

inductive Channel
  | red
  | green
  | blue

namespace Channel

/-- Where on the circle, in sextants, a channel stands alone. -/
def place : Channel → Nat
  | .red => 0
  | .green => 2
  | .blue => 4

theorem place_le (lead : Channel) : lead.place ≤ 4 := by cases lead <;> decide

/-- The channels above the least of them, where the lead is `chroma` above it and the next one
round the circle is `chroma * q` above the other. -/
def parts (chroma q : Rat) : Channel → Rat × Rat × Rat
  | .red => (chroma, chroma * max q 0, chroma * max (-q) 0)
  | .green => (chroma * max (-q) 0, chroma, chroma * max q 0)
  | .blue => (chroma * max q 0, chroma * max (-q) 0, chroma)

/-- The point of the circle, in sextants, that is `q` past the place of the lead. -/
def past (lead : Channel) (q : Rat) : Rat := wrap (q + lead.place) 6

theorem past_of_nonneg {lead : Channel} {q : Rat} (h₀ : 0 ≤ q + lead.place) (hq : q ≤ 1) :
    lead.past q = q + lead.place := by
  have hlead : (lead.place : Rat) ≤ 4 := by exact_mod_cast lead.place_le
  exact wrap_of_lt h₀ (by linarith)

theorem past_red_of_neg {q : Rat} (hlow : -1 ≤ q) (hq : q < 0) : red.past q = q + 6 := by
  have hzero : q + (red.place : Rat) = q := by simp [place]
  rw [past, hzero, wrap_of_neg hq (by linarith)]

/-- On both sides of the lead's place the second channel falls as far as the distance. -/
theorem tent_past {q : Rat} (h : |q| ≤ 1) (lead : Channel) :
    1 - |wrap (lead.past q) 2 - 1| = |q| := by
  obtain ⟨hlow, hhigh⟩ := abs_le.1 h
  have hround : wrap (lead.past q) 2 = wrap q 2 := by
    obtain ⟨k, hk⟩ : ∃ k : Int, lead.past q = q + 2 * k := by
      refine ⟨(lead.place / 2 : Nat) - 3 * ⌊(q + lead.place) / 6⌋, ?_⟩
      rw [past, wrap_rat]
      cases lead <;> push_cast [place] <;> ring
    rw [hk, wrap_add_mul q two_pos]
  rw [hround]
  rcases lt_or_ge q 0 with hq | hq
  · rw [wrap_of_neg hq (by linarith), abs_of_neg hq, abs_of_nonneg (by linarith)]
    ring
  · rw [wrap_of_lt hq (by linarith), abs_of_nonneg hq, abs_of_nonpos (by linarith)]
    ring

theorem sextant_past {q : Rat} (h : |q| ≤ 1) (chroma : Rat) (lead : Channel) :
    Hsv.sextant chroma (chroma * |q|) (whole (lead.past q)) = lead.parts chroma q := by
  obtain ⟨hlow, hhigh⟩ := abs_le.1 h
  rcases lt_or_ge q 0 with hq | hq
  · have hwhole : whole (lead.past q) = (lead.place + 5) % 6 := by
      cases lead with
      | red =>
        rw [past_red_of_neg hlow hq]
        exact whole_eq (by norm_num [place]; linarith) (by norm_num [place]; linarith)
      | green | blue =>
        rw [past_of_nonneg (by norm_num [place]; linarith) hhigh]
        exact whole_eq (by norm_num [place]; linarith) (by norm_num [place]; linarith)
    rw [hwhole, abs_of_neg hq]
    cases lead <;> simp [Hsv.sextant, place, parts, max_eq_right hq.le, (neg_pos.2 hq).le]
  · rw [past_of_nonneg (by positivity) hhigh, abs_of_nonneg hq]
    rcases hhigh.lt_or_eq with hq' | rfl
    · rw [whole_eq (n := lead.place) (by linarith) (by linarith)]
      cases lead <;> simp [Hsv.sextant, place, parts, hq]
    · -- right between two leads both of them have the whole chroma
      rw [whole_eq (n := lead.place + 1) (by push_cast; linarith) (by push_cast; linarith)]
      cases lead <;> simp [Hsv.sextant, place, parts]

end Channel

namespace Hsv

theorem toRgba_eq (color : Hsv Rat) (alpha : UInt8) {chroma sector red green blue : Rat}
    (hchroma : clampUnit color.value * clampUnit color.saturation = chroma)
    (hsector : wrap color.hue 360 / 60 = sector)
    (hparts : sextant chroma (chroma * (1 - |wrap sector 2 - 1|)) (whole sector) =
      (red, green, blue)) :
    color.toRgba alpha = ⟨toByte ((red + (clampUnit color.value - chroma)) * 255),
      toByte ((green + (clampUnit color.value - chroma)) * 255),
      toByte ((blue + (clampUnit color.value - chroma)) * 255), alpha⟩ := by
  subst hchroma hsector
  rw [← magnitude_rat] at hparts
  simp only [toRgba, ofNat_rat, Nat.cast_ofNat, Nat.cast_one]
  rw [hparts]

end Hsv

/-! ## Hues -/

namespace Rgba

theorem hueOf_rat (r g b most spread : Rat) :
    hueOf r g b most spread = if spread = 0 then 0
      else if most = r then 60 * wrap ((g - b) / spread) 6
      else if most = g then 60 * ((b - r) / spread + 2)
      else 60 * ((r - g) / spread + 4) := by
  simp [hueOf]

/-- Of two channels one is the least, and the quotient of their difference tells the other. -/
theorem quotient_parts {x y least spread : Rat} (hpos : 0 < spread) (hleast : min x y = least)
    (hx : x ≤ least + spread) (hy : y ≤ least + spread) :
    |(x - y) / spread| ≤ 1 ∧ spread * max ((x - y) / spread) 0 = x - least ∧
      spread * max (-((x - y) / spread)) 0 = y - least := by
  have hx' : least ≤ x := hleast ▸ min_le_left x y
  have hy' : least ≤ y := hleast ▸ min_le_right x y
  have hscale (z : Rat) : spread * max (z / spread) 0 = max z 0 := by
    rw [mul_max_of_nonneg _ _ hpos.le, mul_div_cancel₀ _ hpos.ne', mul_zero]
  refine ⟨?_, ?_, ?_⟩
  · rw [abs_div, abs_of_pos hpos, div_le_one hpos, abs_sub_le_iff]
    constructor <;> linarith
  · rw [hscale, ← hleast, ← max_sub_sub_left, sub_self, max_comm]
  · rw [← neg_div, hscale, neg_sub, ← hleast, ← max_sub_sub_left, sub_self]

/-- The least and the greatest of three channels. -/
structure Extremes (r g b least most : Rat) : Prop where
  least_eq : least = min (min r g) b
  most_eq : most = max (max r g) b

/-- The hue lies at most a sextant from the lead's place, and tells the channels above the least. -/
structure Leads (r g b least most : Rat) (lead : Channel) (q : Rat) : Prop where
  abs_le_one : |q| ≤ 1
  hue_eq : hueOf r g b most (most - least) = 60 * lead.past q
  parts_eq : lead.parts (most - least) q = (r - least, g - least, b - least)

namespace Extremes
variable {r g b least most : Rat}

theorem within (h : Extremes r g b least most) :
    (least ≤ r ∧ r ≤ most) ∧ (least ≤ g ∧ g ≤ most) ∧ (least ≤ b ∧ b ≤ most) := by
  simp [h.least_eq, h.most_eq]

theorem leads_grey (h : Extremes r g b least most) (hgrey : most - least = 0) :
    Leads r g b least most .red 0 where
  abs_le_one := by simp
  hue_eq := by
    rw [hueOf_rat, if_pos hgrey, Channel.past_of_nonneg (by positivity) zero_le_one]
    simp [Channel.place]
  parts_eq := by
    obtain ⟨hr, hg, hb⟩ := h.within
    have hsame : r = least ∧ g = least ∧ b = least := by
      refine ⟨?_, ?_, ?_⟩ <;> linarith
    simp [Channel.parts, hgrey, hsame]

theorem leads_red (h : Extremes r g b least most) (hpos : 0 < most - least) (hred : most = r) :
    Leads r g b least most .red ((g - b) / (most - least)) := by
  obtain ⟨-, hg, hb⟩ := h.within
  have hothers : min g b = least := by
    rw [h.least_eq, min_eq_right (by linarith : g ≤ r)]
  obtain ⟨hq, hup, hdown⟩ := quotient_parts hpos hothers (by linarith) (by linarith)
  refine ⟨hq, ?_, ?_⟩
  · rw [hueOf_rat, if_neg hpos.ne', if_pos hred, Channel.past]
    simp [Channel.place]
  · rw [Channel.parts, hup, hdown, hred]

theorem leads_green (h : Extremes r g b least most) (hpos : 0 < most - least) (hred : most ≠ r)
    (hgreen : most = g) : Leads r g b least most .green ((b - r) / (most - least)) := by
  obtain ⟨hr, -, hb⟩ := h.within
  have hothers : min b r = least := by
    rw [h.least_eq, min_eq_left (by linarith : r ≤ g), min_comm]
  obtain ⟨hq, hup, hdown⟩ := quotient_parts hpos hothers (by linarith) (by linarith)
  obtain ⟨hlow, hhigh⟩ := abs_le.1 hq
  refine ⟨hq, ?_, ?_⟩
  · rw [hueOf_rat, if_neg hpos.ne', if_neg hred, if_pos hgreen,
      Channel.past_of_nonneg (by simp [Channel.place]; linarith) hhigh]
    simp [Channel.place]
  · rw [Channel.parts, hup, hdown, hgreen]

theorem leads_blue (h : Extremes r g b least most) (hpos : 0 < most - least) (hred : most ≠ r)
    (hgreen : most ≠ g) : Leads r g b least most .blue ((r - g) / (most - least)) := by
  obtain ⟨hr, hg, -⟩ := h.within
  have hblue : most = b := by
    have hmost := h.most_eq
    rcases max_choice (max r g) b with hm | hm
    · rcases max_choice r g with hm' | hm'
      · exact absurd (hmost.trans (hm.trans hm')) hred
      · exact absurd (hmost.trans (hm.trans hm')) hgreen
    · exact hmost.trans hm
  have hothers : min r g = least := by
    rw [h.least_eq, min_eq_left ((min_le_left r g).trans (by linarith : r ≤ b))]
  obtain ⟨hq, hup, hdown⟩ := quotient_parts hpos hothers (by linarith) (by linarith)
  obtain ⟨hlow, hhigh⟩ := abs_le.1 hq
  refine ⟨hq, ?_, ?_⟩
  · rw [hueOf_rat, if_neg hpos.ne', if_neg hred, if_neg hgreen,
      Channel.past_of_nonneg (by simp [Channel.place]; linarith) hhigh]
    simp [Channel.place]
  · rw [Channel.parts, hup, hdown, hblue]

theorem exists_leads (h : Extremes r g b least most) :
    ∃ lead q, Leads r g b least most lead q := by
  by_cases hgrey : most - least = 0
  · exact ⟨_, _, h.leads_grey hgrey⟩
  have hpos : 0 < most - least := by
    have hr := h.within.1
    exact lt_of_le_of_ne (by linarith) (Ne.symm hgrey)
  by_cases hred : most = r
  · exact ⟨_, _, h.leads_red hpos hred⟩
  by_cases hgreen : most = g
  · exact ⟨_, _, h.leads_green hpos hred hgreen⟩
  · exact ⟨_, _, h.leads_blue hpos hred hgreen⟩

end Extremes

/-! ## There and back -/

theorem share_nonneg (channel : UInt8) : (0 : Rat) ≤ share channel :=
  div_nonneg channel.toNat.cast_nonneg (Nat.cast_nonneg 255)

theorem share_le_one (channel : UInt8) : (share channel : Rat) ≤ 1 := by
  have hle : channel.toNat ≤ 255 := Nat.le_of_lt_succ channel.toNat_lt
  exact (div_le_one (by norm_num)).2 (Nat.cast_le.2 hle)

theorem toByte_share (channel : UInt8) : toByte ((share channel : Rat) * 255) = channel := by
  have hscale : (share channel : Rat) * 255 = channel.toNat :=
    div_mul_cancel₀ (channel.toNat : Rat) (by norm_num)
  rw [hscale, toByte_toNat]

theorem toHsv_eq (color : Rgba) {least most : Rat} {lead : Channel} {q : Rat}
    (h : Extremes (share color.red) (share color.green) (share color.blue) least most)
    (hlead : Leads (share color.red) (share color.green) (share color.blue) least most lead q) :
    color.toHsv =
      ⟨60 * lead.past q, if most = 0 then 0 else (most - least) / most, most⟩ := by
  rw [← hlead.hue_eq, h.least_eq, h.most_eq]
  simp [toHsv, larger_rat, smaller_rat]

/-- The extremes of a colour, its lead, and what the conversion makes of them. -/
theorem exists_toHsv_eq (color : Rgba) : ∃ least most lead q,
    Leads (share color.red) (share color.green) (share color.blue) least most lead q ∧
      0 ≤ least ∧ least ≤ most ∧ most ≤ 1 ∧ color.toHsv =
        ⟨60 * lead.past q, if most = 0 then 0 else (most - least) / most, most⟩ := by
  have h : Extremes (share color.red) (share color.green) (share color.blue) _ _ := ⟨rfl, rfl⟩
  obtain ⟨lead, q, hlead⟩ := h.exists_leads
  refine ⟨_, _, lead, q, hlead, ?_, h.within.1.1.trans h.within.1.2, ?_, toHsv_eq color h hlead⟩
  · simp [share_nonneg]
  · simp [share_le_one]

end Rgba

/-- Hue, saturation and value are where they should be. -/
structure Hsv.Proper (color : Hsv Rat) : Prop where
  hue_nonneg : 0 ≤ color.hue
  hue_lt : color.hue < 360
  saturation_nonneg : 0 ≤ color.saturation
  saturation_le_one : color.saturation ≤ 1
  value_nonneg : 0 ≤ color.value
  value_le_one : color.value ≤ 1

namespace Rgba

theorem proper_toHsv (color : Rgba) : (color.toHsv : Hsv Rat).Proper := by
  obtain ⟨least, most, lead, q, -, hleast, hle, hmost, heq⟩ := color.exists_toHsv_eq
  have hlow : 0 ≤ lead.past q := wrap_nonneg _ (by norm_num)
  have hhigh : lead.past q < 6 := wrap_lt _ (by norm_num)
  have hsaturation : 0 ≤ (if most = 0 then 0 else (most - least) / most) ∧
      (if most = 0 then 0 else (most - least) / most) ≤ 1 := by
    split_ifs
    · exact ⟨le_rfl, zero_le_one⟩
    · have hnonneg : 0 ≤ most := hleast.trans hle
      exact ⟨div_nonneg (by linarith) hnonneg, div_le_one_of_le₀ (by linarith) hnonneg⟩
  rw [heq]
  exact ⟨by dsimp only; linarith, by dsimp only; linarith, hsaturation.1, hsaturation.2,
    hleast.trans hle, hmost⟩

theorem saturation_of_value_eq_zero {color : Rgba} (h : (color.toHsv : Hsv Rat).value = 0) :
    (color.toHsv : Hsv Rat).saturation = 0 := by
  obtain ⟨least, most, lead, q, -, -, -, -, heq⟩ := color.exists_toHsv_eq
  rw [heq] at h ⊢
  exact if_pos h

theorem toRgba_toHsv (color : Rgba) (alpha : UInt8) : (color.toHsv : Hsv Rat).toRgba alpha =
    ⟨color.red, color.green, color.blue, alpha⟩ := by
  obtain ⟨least, most, lead, q, hlead, hleast, hle, -, heq⟩ := color.exists_toHsv_eq
  have hproper := color.proper_toHsv
  have hvalue := clampUnit_of_mem hproper.value_nonneg hproper.value_le_one
  have hchroma : clampUnit (color.toHsv : Hsv Rat).value *
      clampUnit (color.toHsv : Hsv Rat).saturation = most - least := by
    rw [hvalue, clampUnit_of_mem hproper.saturation_nonneg hproper.saturation_le_one, heq]
    dsimp only
    split_ifs with hblack
    · linarith
    · exact mul_div_cancel₀ _ hblack
  have hsector : wrap (color.toHsv : Hsv Rat).hue 360 / 60 = lead.past q := by
    rw [wrap_of_lt hproper.hue_nonneg hproper.hue_lt, heq]
    exact mul_div_cancel_left₀ _ (by norm_num)
  have hparts := lead.sextant_past hlead.abs_le_one (most - least)
  rw [hlead.parts_eq, ← lead.tent_past hlead.abs_le_one] at hparts
  have hcommon : (color.toHsv : Hsv Rat).value - (most - least) = least := by
    rw [heq]
    exact sub_sub_cancel most least
  rw [Hsv.toRgba_eq _ alpha hchroma hsector hparts, hvalue, hcommon]
  simp only [sub_add_cancel, toByte_share]

/-- Hue, saturation and value lie where they should, and lead back to the colour. -/
theorem toHsv_loses_nothing (color : Rgba) :
    (0 ≤ (color.toHsv : Hsv Rat).hue ∧ (color.toHsv : Hsv Rat).hue < 360) ∧
      (0 ≤ (color.toHsv : Hsv Rat).saturation ∧ (color.toHsv : Hsv Rat).saturation ≤ 1) ∧
      (0 ≤ (color.toHsv : Hsv Rat).value ∧ (color.toHsv : Hsv Rat).value ≤ 1) ∧
      (color.toHsv : Hsv Rat).toRgba color.alpha = color := by
  have hproper := color.proper_toHsv
  exact ⟨⟨hproper.hue_nonneg, hproper.hue_lt⟩,
    ⟨hproper.saturation_nonneg, hproper.saturation_le_one⟩,
    ⟨hproper.value_nonneg, hproper.value_le_one⟩, color.toRgba_toHsv color.alpha⟩

end Rgba

end SceneGrammar
