import SecOC.Sim.PduManager

/-! The wire format as a whole. Parsing inverts building for every profile that has a trailer, and
building inverts parsing for every one. -/

namespace SecOC
open Py PduManager

variable {profile : SecurityProfileEntry} {t : Transport} {f m : Nat}

/-- The frames of the right size: long enough for the trailer, and with four bytes before it on
classic CAN. -/
def FrameSized (t : Transport) (f m : Nat) (s : Bytes) : Prop :=
  f + m ≤ s.length ∧ (t = .classicCan → s.length = f + m + 4)

instance (t : Transport) (f m : Nat) (s : Bytes) : Decidable (FrameSized t f m s) :=
  inferInstanceAs (Decidable (_ ∧ _))

theorem FrameSized.exists_parts {s : Bytes} (h : FrameSized t f m s) : ∃ a fb mac,
    s = a ++ fb ++ mac ∧ fb.length = f ∧ mac.length = m ∧ (t = .classicCan → a.length = 4) := by
  obtain ⟨hlong, hfour⟩ := h
  refine ⟨s.take (s.length - (f + m)), (s.drop (s.length - (f + m))).take f,
    (s.drop (s.length - (f + m))).drop f, ?_, ?_, ?_, ?_⟩
  · rw [List.append_assoc, List.take_append_drop, List.take_append_drop]
  · rw [List.length_take, List.length_drop]
    omega
  · simp only [List.length_drop]
    omega
  · intro ht
    rw [List.length_take, hfour ht]
    omega

theorem build_eq (hl : profile.truncationLengths t = .ok ((f : Int), (m : Int))) (a mac : Bytes)
    (v : Nat) : buildSecuredPdu a v mac profile t =
      .ok (a ++ toBytesBE f (v % 2 ^ (f * 8)) ++ mac) := by
  have hv : ((v : Int) % 2 ^ (f * 8)).toNat = v % 2 ^ (f * 8) := by
    have h : ((v : Int) % 2 ^ (f * 8)) = ((v % 2 ^ (f * 8) : ℕ) : Int) := by push_cast; rfl
    rw [h, Int.toNat_natCast]
  rw [buildSecuredPdu_ok hl (freshnessBytes_eq v f), hv]

theorem parse_of_sized (hl : profile.truncationLengths t = .ok ((f : Int), (m : Int)))
    {a fb mac : Bytes} (hfb : fb.length = f) (hmac : mac.length = m)
    (ha : t = .classicCan → a.length = 4) : parseSecuredPdu (a ++ fb ++ mac) profile t =
      .ok (a, if 0 < f + m then fromBytesBE fb else fromBytesBE a, mac) := by
  split_ifs with hpos
  · refine parseSecuredPdu_append ?_ ?_ ha
    · rw [hfb, hmac]
      exact hl
    · rw [← List.length_pos_iff, List.length_append]
      omega
  · obtain rfl : fb = [] := List.length_eq_zero_iff.mp (by omega)
    obtain rfl : mac = [] := List.length_eq_zero_iff.mp (by omega)
    have hzero : profile.truncationLengths t = .ok (0, 0) := by
      rw [hl, ← hfb, ← hmac]
      rfl
    rw [List.append_nil, List.append_nil]
    exact parseSecuredPdu_noTrailer hzero ha

theorem parse_build_iff (hl : profile.truncationLengths t = .ok ((f : Int), (m : Int)))
    {payload mac : Bytes} (v : Nat) (ha : t = .classicCan → payload.length = 4)
    (hmac : mac.length = m) :
    (buildSecuredPdu payload v mac profile t >>= fun s => parseSecuredPdu s profile t) =
        .ok (payload, v % 2 ^ (8 * f), mac) ↔ 0 < f + m ∨ ∀ b ∈ payload, b = 0 := by
  have hpow : (2 : ℕ) ^ (8 * f) = 256 ^ f := by rw [mul_comm, two_pow_eight_mul]
  have hfield : fromBytesBE (toBytesBE f (v % 2 ^ (f * 8))) = v % 2 ^ (8 * f) := by
    rw [fromBytesBE_toBytesBE, two_pow_eight_mul, hpow, Nat.mod_mod]
  have hstep : (buildSecuredPdu payload v mac profile t >>= fun s => parseSecuredPdu s profile t) =
      .ok (payload, if 0 < f + m then v % 2 ^ (8 * f) else fromBytesBE payload, mac) := by
    rw [build_eq hl, ← hfield]
    exact parse_of_sized hl (toBytesBE_length _ _) hmac ha
  rw [hstep]
  split_ifs with hpos
  · exact iff_of_true rfl (Or.inl hpos)
  · have hf : f = 0 := by omega
    rw [hf, Nat.mul_zero, pow_zero, Nat.mod_one, ← fromBytesBE_eq_zero_iff]
    constructor
    · intro h
      exact Or.inr (Prod.mk.inj (Prod.mk.inj (Except.ok.inj h)).2).1
    · rintro (h | h)
      · omega
      · rw [h]

theorem build_parsed (hl : profile.truncationLengths t = .ok ((f : Int), (m : Int)))
    {a fb mac : Bytes} (hfb : fb.length = f) (hmac : mac.length = m) :
    buildSecuredPdu a (if 0 < f + m then fromBytesBE fb else fromBytesBE a : ℕ) mac profile t =
      .ok (a ++ fb ++ mac) := by
  rw [build_eq hl]
  split_ifs with hpos
  · have hlt := fromBytesBE_lt fb
    rw [hfb, ← two_pow_eight_mul] at hlt
    rw [Nat.mod_eq_of_lt hlt, ← hfb, toBytesBE_fromBytesBE]
  · obtain rfl : fb = [] := List.length_eq_zero_iff.mp (by omega)
    rw [← hfb]
    rfl

theorem parse_unsized (hl : profile.truncationLengths t = .ok ((f : Int), (m : Int))) {s : Bytes}
    (h : ¬FrameSized t f m s) :
    ∃ text, parseSecuredPdu s profile t = .error (.valueError text) := by
  rcases lt_or_ge s.length (f + m) with hshort | hlong
  · exact ⟨_, parseSecuredPdu_short hl (by exact_mod_cast hshort)⟩
  · cases t with
    | canFd => exact absurd ⟨hlong, nofun⟩ h
    | classicCan => exact parseSecuredPdu_notFour hl fun h4 => h ⟨hlong, fun _ => h4⟩

theorem parts_of_parse (hl : profile.truncationLengths t = .ok ((f : Int), (m : Int)))
    (hpos : 0 < f + m) {s a mac : Bytes} {v : Nat}
    (h : parseSecuredPdu s profile t = .ok (a, v, mac)) :
    ∃ fb, s = a ++ fb ++ mac ∧ fb.length = f ∧ mac.length = m ∧ v = fromBytesBE fb := by
  by_cases hs : FrameSized t f m s
  · obtain ⟨a', fb, mac', rfl, hfb, hmac, ha⟩ := hs.exists_parts
    rw [parse_of_sized hl hfb hmac ha, if_pos hpos] at h
    cases h
    exact ⟨fb, rfl, hfb, hmac, rfl⟩
  · obtain ⟨text, herror⟩ := parse_unsized hl hs
    rw [herror] at h
    cases h

/-- What is built parses to its parts exactly when there is a trailer or the payload is zero, and
the frames that parse are those of the right size, each the one its parts build. -/
theorem wire_format_inverse {profile : SecurityProfileEntry} {t : Transport} {f m : Nat}
    (hl : profile.truncationLengths t = .ok ((f : Int), (m : Int))) :
    (∀ (payload mac : Bytes) (v : Nat), (t = .classicCan → payload.length = 4) → mac.length = m →
      ((buildSecuredPdu payload v mac profile t >>= fun s => parseSecuredPdu s profile t) =
          .ok (payload, v % 2 ^ (8 * f), mac) ↔ 0 < f + m ∨ ∀ b ∈ payload, b = 0)) ∧
    ∀ s : Bytes, ((∃ x, parseSecuredPdu s profile t = .ok x) ↔ FrameSized t f m s) ∧
      (¬FrameSized t f m s → ∃ text, parseSecuredPdu s profile t = .error (.valueError text)) ∧
      ∀ (a mac : Bytes) (v : Nat), parseSecuredPdu s profile t = .ok (a, v, mac) →
        buildSecuredPdu a v mac profile t = .ok s := by
  refine ⟨fun payload mac v ha hmac => parse_build_iff hl v ha hmac, fun s => ?_⟩
  by_cases hs : FrameSized t f m s
  · obtain ⟨a, fb, mac, rfl, hfb, hmac, ha⟩ := hs.exists_parts
    have hparse := parse_of_sized hl hfb hmac ha
    refine ⟨iff_of_true ⟨_, hparse⟩ hs, fun h => absurd hs h, ?_⟩
    intro a' mac' v h
    rw [hparse] at h
    cases h
    exact build_parsed hl hfb hmac
  · obtain ⟨text, herror⟩ := parse_unsized hl hs
    refine ⟨iff_of_false ?_ hs, fun _ => ⟨text, herror⟩, ?_⟩
    · rintro ⟨x, hx⟩
      rw [herror] at hx
      cases hx
    · intro a mac v h
      rw [herror] at h
      cases h

theorem wire_format_inverse_shipped :
    (buildSecuredPdu [1, 2, 3] (70000 : ℕ) (List.replicate 8 7) (shippedProfile "PDU_0x100") .canFd
        >>= fun s => parseSecuredPdu s (shippedProfile "PDU_0x100") .canFd) =
      .ok ([1, 2, 3], 70000 % 2 ^ (8 * 2), List.replicate 8 7) := by
  have hl : (shippedProfile "PDU_0x100").truncationLengths .canFd =
      .ok (((2 : ℕ) : Int), ((8 : ℕ) : Int)) := rfl
  exact ((wire_format_inverse hl).1 [1, 2, 3] (List.replicate 8 7) 70000 nofun rfl).mpr
    (Or.inl (by decide))

def bareProfile : SecurityProfileEntry :=
  { shippedProfile "PDU_0x100" with freshnessLength := 0, authenticatorLength := 0 }

theorem bareProfile_not_inverse :
    bareProfile.truncationLengths .canFd = .ok (((0 : ℕ) : Int), ((0 : ℕ) : Int)) ∧
    (buildSecuredPdu [1] (5 : ℕ) [] bareProfile .canFd >>= fun s =>
      parseSecuredPdu s bareProfile .canFd) = .ok ([1], 1, []) ∧
    (buildSecuredPdu [1] (5 : ℕ) [] bareProfile .canFd >>= fun s =>
      parseSecuredPdu s bareProfile .canFd) ≠ .ok ([1], 5 % 2 ^ (8 * 0), []) := by
  decide

end SecOC
