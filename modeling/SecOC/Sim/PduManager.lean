import SecOC.Sim.SecurityProfile

/-! The wire layout of a Secured I-PDU: authentic payload, truncated freshness, MAC. -/

namespace SecOC
open Py

/-- The counter reduced to the field and written big-endian. A negative field length raises
at the shift that forms the modulus, before the reduction. -/
def freshnessBytes (freshnessValue : Int) (freshLen : Int) : Except PyError Bytes :=
  if freshLen < 0 then .error (.valueError "negative shift count")
  else
    let n := freshLen.toNat
    .ok (toBytesBE n (freshnessValue % 2 ^ (n * 8)).toNat)

namespace Serialization

def encode (payload : Bytes) : Bytes := payload

def decode (raw : Bytes) : Bytes := raw

end Serialization

namespace PduManager

def buildSecuredPdu (authenticPdu : Bytes) (freshnessValue : Int) (mac : Bytes)
    (profile : SecurityProfileEntry) (transport : Transport) : Except PyError Bytes := do
  let (freshLen, _) ← profile.truncationLengths transport
  return Serialization.encode authenticPdu ++ (← freshnessBytes freshnessValue freshLen) ++ mac

def parseSecuredPdu (securedPdu : Bytes) (profile : SecurityProfileEntry)
    (transport : Transport) : Except PyError (Bytes × Nat × Bytes) := do
  let (freshLen, macLen) ← profile.truncationLengths transport
  let trailerLen := freshLen + macLen
  if (securedPdu.length : Int) < trailerLen then
    throw (.valueError "secured_pdu shorter than freshness+authenticator trailer")
  -- a slice up to `-0` would be empty
  let authenticPdu := if trailerLen ≠ 0 then slice securedPdu none (some (-trailerLen))
    else securedPdu
  if transport = .classicCan ∧ authenticPdu.length ≠ 4 then
    throw (.valueError (s!"CLASSIC_CAN secured_pdu authentic_pdu segment must be exactly " ++
      s!"4 bytes, got {authenticPdu.length}"))
  let freshness := slice securedPdu (some (-trailerLen)) (some (securedPdu.length - macLen))
  let mac := if macLen ≠ 0 then slice securedPdu (some (-macLen)) none else []
  return (Serialization.decode authenticPdu, fromBytesBE freshness, mac)

end PduManager

theorem freshnessBytes_eq (v : Int) (n : Nat) :
    freshnessBytes v n = .ok (toBytesBE n (v % 2 ^ (n * 8)).toNat) := by
  rw [freshnessBytes, if_neg (by omega)]
  rfl

theorem freshnessBytes_length {v : Int} {freshLen : Int} {bs : Bytes}
    (h : freshnessBytes v freshLen = .ok bs) : 0 ≤ freshLen ∧ (bs.length : Int) = freshLen := by
  unfold freshnessBytes at h
  split_ifs at h with hn
  injection h with h
  rw [← h, toBytesBE_length]
  omega

theorem fromBytesBE_freshnessBytes {v : Int} {n : Nat} {bs : Bytes}
    (h : freshnessBytes v n = .ok bs) : (fromBytesBE bs : Int) = v % 2 ^ (n * 8) := by
  rw [freshnessBytes_eq] at h
  injection h with h
  have hpos : (0 : Int) < 2 ^ (n * 8) := by positivity
  have h0 := Int.emod_nonneg v hpos.ne'
  have hlt := Int.emod_lt_of_pos v hpos
  rw [← h, fromBytesBE_toBytesBE, ← two_pow_eight_mul]
  push_cast
  rw [Int.toNat_of_nonneg h0, Int.emod_eq_of_lt h0 hlt]

namespace PduManager

theorem buildSecuredPdu_ok {profile : SecurityProfileEntry} {transport : Transport} {n m : Int}
    (hlen : profile.truncationLengths transport = .ok (n, m)) {v : Int} {fb : Bytes}
    (hfb : freshnessBytes v n = .ok fb) (a mac : Bytes) :
    buildSecuredPdu a v mac profile transport = .ok (a ++ fb ++ mac) := by
  simp only [buildSecuredPdu, hlen, hfb, bind, Except.bind, pure, Except.pure,
    Serialization.encode]

theorem parseSecuredPdu_append {profile : SecurityProfileEntry} {transport : Transport}
    {a fb mac : Bytes}
    (hlen : profile.truncationLengths transport = .ok ((fb.length : Int), (mac.length : Int)))
    (hpos : fb ++ mac ≠ []) (ha : transport = .classicCan → a.length = 4) :
    parseSecuredPdu (a ++ fb ++ mac) profile transport = .ok (a, fromBytesBE fb, mac) := by
  have htr : (fb.length : Int) + mac.length = ((fb ++ mac).length : Int) := by simp
  have hne : ((fb ++ mac).length : Int) ≠ 0 := by
    have := List.length_pos_iff.mpr hpos
    omega
  have hlong : ¬((a ++ fb ++ mac).length : Int) < ((fb ++ mac).length : Int) := by
    simp only [List.length_append]
    omega
  have hpay : slice (a ++ fb ++ mac) none (some (-((fb ++ mac).length : Int))) = a := by
    rw [List.append_assoc]
    exact slice_dropLast a (fb ++ mac) hpos
  have hmac : (if (mac.length : Int) ≠ 0
      then slice (a ++ fb ++ mac) (some (-(mac.length : Int))) none else []) = mac := by
    split_ifs with h
    · have hmac : mac ≠ [] := by simpa using h
      exact slice_takeLast (a ++ fb) mac hmac
    · have hmac : mac.length = 0 := by simpa using h
      exact (List.length_eq_zero_iff.mp hmac).symm
  have hfour : ¬(transport = .classicCan ∧ a.length ≠ 4) := fun h => h.2 (ha h.1)
  simp only [parseSecuredPdu, hlen, bind, Except.bind, htr, hlong, if_false, hne, ne_eq,
    not_false_eq_true, if_true, hpay, hfour, hmac, slice_middle a fb mac hpos,
    Serialization.decode, pure, Except.pure]

theorem parseSecuredPdu_noTrailer {profile : SecurityProfileEntry} {transport : Transport}
    (hlen : profile.truncationLengths transport = .ok (0, 0)) {frame : Bytes}
    (ha : transport = .classicCan → frame.length = 4) :
    parseSecuredPdu frame profile transport = .ok (frame, fromBytesBE frame, []) := by
  -- without a trailer the slice of the field starts at `-0`, and the field is the whole frame
  have hlong : ¬(frame.length : Int) < 0 := by omega
  have hfour : ¬(transport = .classicCan ∧ frame.length ≠ 4) := fun h => h.2 (ha h.1)
  have hstart : sliceBound frame.length 0 = 0 := by simp [sliceBound]
  have hstop : sliceBound frame.length frame.length = frame.length := by
    rw [sliceBound, if_neg (by omega), Int.toNat_natCast, min_self]
  have hfield : slice frame (some 0) (some frame.length) = frame := by
    rw [slice, Option.elim_some, Option.elim_some, hstart, hstop, List.take_length, List.drop_zero]
  simp only [parseSecuredPdu, hlen, bind, Except.bind, add_zero, neg_zero, sub_zero, hlong,
    if_false, ne_eq, not_true_eq_false, hfour, hfield, Serialization.decode, pure, Except.pure]

theorem parseSecuredPdu_short {profile : SecurityProfileEntry} {transport : Transport} {n m : Int}
    (hlen : profile.truncationLengths transport = .ok (n, m)) {frame : Bytes}
    (h : (frame.length : Int) < n + m) : parseSecuredPdu frame profile transport =
      .error (.valueError "secured_pdu shorter than freshness+authenticator trailer") := by
  simp only [parseSecuredPdu, hlen, bind, Except.bind, h, if_true, throw, throwThe,
    MonadExceptOf.throw]

theorem parseSecuredPdu_notFour {profile : SecurityProfileEntry} {n m : Nat}
    (hlen : profile.truncationLengths .classicCan = .ok ((n : Int), (m : Int))) {frame : Bytes}
    (h : frame.length ≠ n + m + 4) :
    ∃ text, parseSecuredPdu frame profile .classicCan = .error (.valueError text) := by
  rcases lt_or_ge (frame.length : Int) (n + m) with hshort | hlong
  · exact ⟨_, parseSecuredPdu_short hlen hshort⟩
  · have hpay : (if (n : Int) + m ≠ 0 then slice frame none (some (-((n : Int) + m)))
        else frame).length = frame.length - (n + m) := by
      split_ifs with h0
      · rw [slice, Option.elim_some, Option.elim_none, List.drop_zero, List.length_take, sliceBound,
          if_pos (by omega)]
        omega
      · omega
    have hfour : ¬frame.length - (n + m) = 4 := by omega
    simp only [parseSecuredPdu, hlen, bind, Except.bind, not_lt.mpr hlong, if_false, hpay, true_and,
      throw, throwThe, MonadExceptOf.throw]
    exact ⟨_, if_pos hfour⟩

theorem parseSecuredPdu_eq_ok {profile : SecurityProfileEntry} {transport : Transport} {n m : Int}
    (hlen : profile.truncationLengths transport = .ok (n, m)) {frame a mac : Bytes}
    {freshness : Nat}
    (h : parseSecuredPdu frame profile transport = .ok (a, freshness, mac)) :
    n + m ≤ frame.length ∧
      a = (if n + m ≠ 0 then slice frame none (some (-(n + m))) else frame) ∧
      freshness = fromBytesBE (slice frame (some (-(n + m))) (some (frame.length - m))) ∧
      mac = if m ≠ 0 then slice frame (some (-m)) none else [] := by
  simp only [parseSecuredPdu, hlen, bind, Except.bind, pure, Except.pure, throw, throwThe,
    MonadExceptOf.throw, Serialization.decode] at h
  by_cases hshort : (frame.length : Int) < n + m
  · rw [if_pos hshort] at h
    cases h
  · rw [if_neg hshort] at h
    refine ⟨not_lt.mp hshort, ?_⟩
    generalize (if n + m ≠ 0 then slice frame none (some (-(n + m))) else frame) = b at h ⊢
    split at h
    · cases h
    · obtain ⟨ha, h⟩ := Prod.mk.inj (Except.ok.inj h)
      obtain ⟨hf, hm⟩ := Prod.mk.inj h
      exact ⟨ha.symm, hf.symm, hm.symm⟩

theorem parseSecuredPdu_freshness_lt {profile : SecurityProfileEntry} {transport : Transport}
    {n : Nat} {m : Int} (hlen : profile.truncationLengths transport = .ok ((n : Int), m))
    (hm : 0 ≤ m) {frame a mac : Bytes} {freshness : Nat} (hmac : mac ≠ [])
    (h : parseSecuredPdu frame profile transport = .ok (a, freshness, mac)) :
    freshness < 256 ^ n := by
  obtain ⟨hlong, -, hf, hmac'⟩ := parseSecuredPdu_eq_ok hlen h
  have hm0 : m ≠ 0 := fun h0 => hmac (hmac'.trans (if_neg (not_not.mpr h0)))
  have hstop : ¬(frame.length : Int) - m < 0 := by omega
  have hstart : -((n : Int) + m) < 0 := by omega
  have hle : (slice frame (some (-((n : Int) + m))) (some (frame.length - m))).length ≤ n := by
    rw [slice_length, sliceBound, sliceBound, if_neg hstop, if_pos hstart]
    omega
  rw [hf]
  exact (fromBytesBE_lt _).trans_le (Nat.pow_le_pow_right (by norm_num) hle)

/-! Which frames of a PDU are malformed, and which parse at all. -/

theorem parseSecuredPdu_lengths {profile : SecurityProfileEntry} {transport : Transport}
    {frame : Bytes} {x : Bytes × Nat × Bytes}
    (h : parseSecuredPdu frame profile transport = .ok x) :
    ∃ n m, profile.truncationLengths transport = .ok (n, m) := by
  unfold parseSecuredPdu at h
  obtain ⟨⟨n, m⟩, hl, -⟩ := bind_eq_ok.mp h
  exact ⟨n, m, hl⟩

theorem parseSecuredPdu_malformed {profile : SecurityProfileEntry} {transport : Transport}
    {frame : Bytes} {text : String}
    (h : parseSecuredPdu frame profile transport = .error (.valueError text)) :
    ∃ n m, profile.truncationLengths transport = .ok (n, m) ∧
      (transport = .classicCan ∨ 0 < n + m) := by
  cases hl : profile.truncationLengths transport with
  | error e =>
    simp only [parseSecuredPdu, hl, bind, Except.bind] at h
    cases transport with
    | canFd => cases hl
    | classicCan =>
      simp only [SecurityProfileEntry.truncationLengths] at hl
      split at hl
      · cases hl
      · cases hl
        cases h
  | ok lengths =>
    obtain ⟨n, m⟩ := lengths
    refine ⟨n, m, rfl, ?_⟩
    by_contra hno
    obtain ⟨hfd, hpos⟩ := not_or.mp hno
    have hlong : ¬(frame.length : Int) < n + m := by omega
    simp only [parseSecuredPdu, hl, bind, Except.bind, hlong, if_false, hfd, false_and, pure,
      Except.pure] at h
    cases h

theorem parseSecuredPdu_nil {profile : SecurityProfileEntry} {transport : Transport} {n m : Int}
    (hl : profile.truncationLengths transport = .ok (n, m))
    (h : transport = .classicCan ∨ 0 < n + m) :
    ∃ text, parseSecuredPdu [] profile transport = .error (.valueError text) := by
  by_cases hpos : 0 < n + m
  · refine ⟨"secured_pdu shorter than freshness+authenticator trailer", ?_⟩
    simp only [parseSecuredPdu, hl, bind, Except.bind, throw, throwThe, MonadExceptOf.throw,
      List.length_nil, Nat.cast_zero, hpos, if_true]
  · obtain rfl := h.resolve_right hpos
    have hempty : (if n + m ≠ 0 then slice ([] : Bytes) none (some (-(n + m))) else []) = [] := by
      simp [slice]
    have hfour : ([] : Bytes).length ≠ 4 := by decide
    simp only [parseSecuredPdu, hl, bind, Except.bind, throw, throwThe, MonadExceptOf.throw,
      List.length_nil, Nat.cast_zero, hpos, if_false, hempty, true_and, ne_eq]
    exact ⟨_, if_pos hfour⟩

theorem parseSecuredPdu_anyFreshness {profile : SecurityProfileEntry} {n m : Int}
    (hl : profile.truncationLengths .canFd = .ok (n, m)) (hle : n + m ≤ 0) (b : Bytes) :
    ∃ payload mac, parseSecuredPdu
      (List.replicate (-(n + m)).toNat 0 ++ b ++ List.replicate m.toNat 0) profile .canFd =
        .ok (payload, fromBytesBE b, mac) := by
  -- with no trailer to speak of, a frame can carry any freshness field
  generalize hframe : List.replicate (-(n + m)).toNat 0 ++ b ++ List.replicate m.toNat 0 = frame
  have hlen : frame.length = (-(n + m)).toNat + b.length + m.toNat := by
    rw [← hframe]
    simp only [List.length_append, List.length_replicate]
  have hshort : ¬(frame.length : Int) < n + m := by omega
  have hstart : sliceBound frame.length (-(n + m)) = (-(n + m)).toNat := by
    rw [sliceBound, if_neg (by omega)]
    omega
  have hstop : sliceBound frame.length (frame.length - m) = (-(n + m)).toNat + b.length := by
    rw [sliceBound, if_neg (by omega)]
    omega
  have hfield : slice frame (some (-(n + m))) (some (frame.length - m)) = b := by
    rw [slice, Option.elim_some, Option.elim_some, hstart, hstop, ← hframe,
      List.take_left' (by simp), List.drop_left' (by simp)]
  have hfd : ¬(Transport.canFd = .classicCan ∧
      (if n + m ≠ 0 then slice frame none (some (-(n + m))) else frame).length ≠ 4) :=
    fun h => by cases h.1
  simp only [parseSecuredPdu, hl, bind, Except.bind, hshort, if_false, hfd, hfield, pure,
    Except.pure]
  exact ⟨_, _, rfl⟩

end PduManager
end SecOC
