import Mathlib.Data.List.Perm.Basic
import Mathlib.Logic.Function.Basic
import SecOC.Sim.SignalPackager

/-! What the packed buffers hold: the raw number last packed for every signal since its PDU was
last sent, and nothing else. -/

namespace SecOC
open Py

namespace SignalLayout

def start (l : SignalLayout) : Nat := l.offsetBits.toNat
def width (l : SignalLayout) : Nat := l.widthBits.toNat

def Owns (l : SignalLayout) (k : Nat) : Prop := l.start ≤ k ∧ k < l.start + l.width

/-- The raw number a value is packed as; a signal that was not packed counts as raw 0. -/
def rawOf (l : SignalLayout) : Option ℚ → ℤ
  | none => 0
  | some value => Js.roundEven ((value - l.offset) / l.factor)

end SignalLayout

namespace SignalPackager

/-- Fields lie inside their PDU, share no bit and agree on its length. -/
structure WellFormed (table : Dict String SignalLayout) : Prop where
  inside : ∀ {x l}, table.get? x = some l → 0 ≤ l.offsetBits ∧ 0 ≤ l.widthBits ∧
    l.offsetBits + l.widthBits ≤ 8 * l.pduLengthBytes
  sameLength : ∀ {x y l m}, table.get? x = some l → table.get? y = some m →
    l.pduId = m.pduId → l.pduLengthBytes = m.pduLengthBytes
  disjoint : ∀ {x y l m}, table.get? x = some l → table.get? y = some m →
    l.pduId = m.pduId → x ≠ y → ∀ k, l.Owns k → ¬m.Owns k
  factor_ne : ∀ {x l}, table.get? x = some l → l.factor ≠ 0

@[ext] structure Pending where
  raw : String → Nat
  begun : Int → Bool

namespace Pending

def none : Pending := ⟨fun _ => 0, fun _ => false⟩

def pack (a : Pending) (x : String) (l : SignalLayout) (raw : Nat) : Pending :=
  ⟨Function.update a.raw x raw, Function.update a.begun l.pduId true⟩

def send (a : Pending) (table : Dict String SignalLayout) (pduId : Int) : Pending :=
  ⟨fun y => if (table.get? y).map SignalLayout.pduId = some pduId then 0 else a.raw y,
    Function.update a.begun pduId false⟩

variable (a : Pending) (x : String) (l : SignalLayout) (raw : Nat)

@[simp] theorem pack_raw_self : (a.pack x l raw).raw x = raw := Function.update_self ..

theorem pack_raw_of_ne {y : String} (h : y ≠ x) : (a.pack x l raw).raw y = a.raw y :=
  Function.update_of_ne h ..

end Pending

structure Tracks (table : Dict String SignalLayout) (s : SignalPackager) (a : Pending) :
    Prop where
  signalTable : s.signalTable = table
  begun : ∀ q, a.begun q = (s.txBuffers.get? q).isSome
  length : ∀ {q buf}, s.txBuffers.get? q = some buf →
    ∃ x l, table.get? x = some l ∧ l.pduId = q ∧ (buf.length : Int) = l.pduLengthBytes
  owned : ∀ {x l buf k}, table.get? x = some l → s.txBuffers.get? l.pduId = some buf →
    l.Owns k → bitAt buf k = (a.raw x).testBit (l.start + l.width - 1 - k)
  unowned : ∀ {q buf k}, s.txBuffers.get? q = some buf →
    (∀ x l, table.get? x = some l → l.pduId = q → ¬l.Owns k) → bitAt buf k = false
  raw_lt : ∀ {x l}, table.get? x = some l → a.raw x < 2 ^ l.width
  raw_eq_zero : ∀ {x l}, table.get? x = some l → s.txBuffers.get? l.pduId = Option.none →
    a.raw x = 0

theorem rawValue_eq_ok {l : SignalLayout} {x : String} {value : SignalValue} {raw : Nat} :
    rawValue l x value = .ok raw ↔ ∃ v, value = .number v ∧ l.factor ≠ 0 ∧
      (raw : ℤ) = l.rawOf (some v) ∧ (raw : ℚ) < 2 ^ l.widthBits := by
  cases value with
  | other => simp [rawValue]
  | number v =>
    simp only [rawValue, SignalLayout.rawOf, SignalValue.number.injEq, exists_eq_left']
    generalize Js.roundEven ((v - l.offset) / l.factor) = r
    constructor
    · intro h
      split at h
      · cases h
      · next hfactor =>
        split at h
        · next hr =>
          cases h
          have hcast : ((r.toNat : ℕ) : ℤ) = r := Int.toNat_of_nonneg hr.1
          refine ⟨hfactor, hcast, ?_⟩
          exact_mod_cast (congrArg (Int.cast : ℤ → ℚ) hcast).trans_lt hr.2
        · cases h
    · rintro ⟨hfactor, rfl, hlt⟩
      rw [if_neg hfactor, if_pos ⟨Int.natCast_nonneg raw, by exact_mod_cast hlt⟩,
        Int.toNat_natCast]

section Steps
variable {table : Dict String SignalLayout} {s : SignalPackager} {a : Pending} {x : String}
  {l : SignalLayout} {value : SignalValue} {raw : Nat}

theorem WellFormed.start_add_width_le (hT : WellFormed table) (hx : table.get? x = some l)
    {buf : Bytes} (hlen : (buf.length : Int) = l.pduLengthBytes) :
    l.start + l.width ≤ 8 * buf.length := by
  obtain ⟨h0, hw, hle⟩ := hT.inside hx
  unfold SignalLayout.start SignalLayout.width
  omega

theorem WellFormed.rawValue_lt (hT : WellFormed table) (hx : table.get? x = some l)
    (hraw : rawValue l x value = .ok raw) : raw < 2 ^ l.width := by
  obtain ⟨v, -, -, -, hlt⟩ := rawValue_eq_ok.mp hraw
  have hw : l.widthBits = (l.width : Int) := (Int.toNat_of_nonneg (hT.inside hx).2.1).symm
  rw [hw, zpow_natCast] at hlt
  exact_mod_cast hlt

theorem Tracks.exists_buffer (hT : WellFormed table) (h : Tracks table s a)
    (hx : table.get? x = some l) : ∃ fresh buf, bytearray l.pduLengthBytes = .ok fresh ∧
      s.txBuffers.getD l.pduId fresh = buf ∧ (buf.length : Int) = l.pduLengthBytes ∧
      (∀ y m k, table.get? y = some m → m.pduId = l.pduId → m.Owns k →
        bitAt buf k = (a.raw y).testBit (m.start + m.width - 1 - k)) ∧
      ∀ k, (∀ y m, table.get? y = some m → m.pduId = l.pduId → ¬m.Owns k) →
        bitAt buf k = false := by
  -- the buffer a pack starts from: the one begun, or a new one of zeros
  obtain ⟨h0, hw, hle⟩ := hT.inside hx
  refine ⟨List.replicate l.pduLengthBytes.toNat 0, _, if_neg (by omega), rfl, ?_⟩
  rw [Dict.getD]
  cases hbuf : s.txBuffers.get? l.pduId with
  | none =>
    refine ⟨by simp only [Option.getD_none, List.length_replicate]; omega, ?_, ?_⟩
    · intro y m k hy hm _
      rw [h.raw_eq_zero hy (hm ▸ hbuf), Option.getD_none, bitAt_replicate, Nat.zero_testBit]
    · intro k _
      exact bitAt_replicate _ _
  | some buf =>
    obtain ⟨y, m, hy, hm, hlen⟩ := h.length hbuf
    refine ⟨hlen.trans (hT.sameLength hy hx hm), ?_, ?_⟩
    · intro y m k hy hm hk
      exact h.owned hy (hm ▸ hbuf) hk
    · intro k hk
      exact h.unowned hbuf hk

theorem Tracks.set (h : Tracks table s a) (hx : table.get? x = some l) (hraw : raw < 2 ^ l.width)
    {buf : Bytes} (hlen : (buf.length : Int) = l.pduLengthBytes)
    (howned : ∀ {y m k}, table.get? y = some m → m.pduId = l.pduId → m.Owns k →
      bitAt buf k = ((a.pack x l raw).raw y).testBit (m.start + m.width - 1 - k))
    (hunowned : ∀ {k}, (∀ y m, table.get? y = some m → m.pduId = l.pduId → ¬m.Owns k) →
      bitAt buf k = false) :
    Tracks table { s with txBuffers := s.txBuffers.set l.pduId buf } (a.pack x l raw) := by
  have hother : ∀ {y m}, table.get? y = some m → m.pduId ≠ l.pduId →
      (a.pack x l raw).raw y = a.raw y := by
    intro y m hy hp
    refine Pending.pack_raw_of_ne _ _ _ _ ?_
    rintro rfl
    exact hp (congrArg _ (Option.some.inj (hy.symm.trans hx)))
  refine ⟨h.signalTable, ?_, ?_, ?_, ?_, ?_, ?_⟩
  · intro q
    simp only [Pending.pack, Function.update_apply, Dict.get?_set]
    split
    · rfl
    · exact h.begun q
  · intro q b hq
    rw [Dict.get?_set] at hq
    split at hq
    · next heq =>
      cases hq
      exact ⟨x, l, hx, heq.symm, hlen⟩
    · exact h.length hq
  · intro y m b k hy hb hk
    rw [Dict.get?_set] at hb
    split at hb
    · next hp =>
      cases hb
      exact howned hy hp hk
    · next hp =>
      rw [hother hy hp]
      exact h.owned hy hb hk
  · intro q b k hb hk
    rw [Dict.get?_set] at hb
    split at hb
    · next hq =>
      cases hb
      exact hunowned (hq ▸ hk)
    · exact h.unowned hb hk
  · intro y m hy
    by_cases hxy : y = x
    · subst hxy
      obtain rfl : m = l := Option.some.inj (hy.symm.trans hx)
      rwa [Pending.pack_raw_self]
    · rw [Pending.pack_raw_of_ne _ _ _ _ hxy]
      exact h.raw_lt hy
  · intro y m hy hnone
    rw [Dict.get?_set] at hnone
    split at hnone
    · cases hnone
    · next hp =>
      rw [hother hy hp]
      exact h.raw_eq_zero hy hnone

theorem Tracks.packSignal (hT : WellFormed table) (h : Tracks table s a)
    (hx : table.get? x = some l) (hraw : rawValue l x value = .ok raw) :
    ∃ buf, s.packSignal x value =
        (.ok buf, { s with txBuffers := s.txBuffers.set l.pduId buf }) ∧
      Tracks table { s with txBuffers := s.txBuffers.set l.pduId buf } (a.pack x l raw) := by
  obtain ⟨fresh, old, hfresh, hold, hlen, howned, hunowned⟩ := h.exists_buffer hT hx
  have hroom : l.start + l.width ≤ 8 * old.length := hT.start_add_width_le hx hlen
  obtain ⟨buf, hset, hbuflen, hbits⟩ := setBits_natCast raw hroom
  have hin : ∀ j, l.Owns j → bitAt buf j = raw.testBit (l.start + l.width - 1 - j) :=
    fun j hj => (hbits j).trans (if_pos hj)
  have hout : ∀ j, ¬l.Owns j → bitAt buf j = bitAt old j :=
    fun j hj => (hbits j).trans (if_neg hj)
  have hstart : (l.start : Int) = l.offsetBits := Int.toNat_of_nonneg (hT.inside hx).1
  have hlayout : s.getLayout x = .ok l := by rw [getLayout, h.signalTable, hx]
  refine ⟨buf, ?_, h.set hx (hT.rawValue_lt hx hraw) (hbuflen ▸ hlen) ?_ ?_⟩
  · rw [hstart] at hset
    simp only [SignalPackager.packSignal, hlayout, hraw, hfresh, hold]
    rw [show l.widthBits.toNat = l.width from rfl, hset]
    rfl
  · intro y m k hy hp hk
    by_cases hxy : y = x
    · subst hxy
      obtain rfl : m = l := Option.some.inj (hy.symm.trans hx)
      rw [hin k hk, Pending.pack_raw_self]
    · rw [hout k (hT.disjoint hy hx hp hxy k hk), Pending.pack_raw_of_ne _ _ _ _ hxy]
      exact howned y m k hy hp hk
  · intro k hk
    rw [hout k (hk x l hx rfl)]
    exact hunowned k hk

theorem Tracks.erase (h : Tracks table s a) (p : Int) :
    Tracks table { s with txBuffers := s.txBuffers.erase p } (a.send table p) := by
  have hget : ∀ {q buf}, (s.txBuffers.erase p).get? q = some buf →
      q ≠ p ∧ s.txBuffers.get? q = some buf := by
    intro q buf hq
    rw [Dict.get?_erase] at hq
    split at hq
    · cases hq
    · next hne => exact ⟨hne, hq⟩
  have hraw : ∀ {y m}, table.get? y = some m →
      (a.send table p).raw y = if m.pduId = p then 0 else a.raw y := by
    intro y m hy
    simp only [Pending.send, hy, Option.map_some, Option.some.injEq]
  refine ⟨h.signalTable, ?_, ?_, ?_, ?_, ?_, ?_⟩
  · intro q
    simp only [Pending.send, Function.update_apply, Dict.get?_erase]
    split
    · rfl
    · exact h.begun q
  · intro q buf hq
    exact h.length (hget hq).2
  · intro y m buf k hy hq hk
    obtain ⟨hne, hq⟩ := hget hq
    rw [hraw hy, if_neg hne]
    exact h.owned hy hq hk
  · intro q buf k hq hk
    exact h.unowned (hget hq).2 hk
  · intro y m hy
    rw [hraw hy]
    split
    · exact Nat.two_pow_pos _
    · exact h.raw_lt hy
  · intro y m hy hnone
    rw [hraw hy]
    rw [Dict.get?_erase] at hnone
    split
    · rfl
    · next hne => exact h.raw_eq_zero hy (by rwa [if_neg hne] at hnone)

theorem Tracks.unpackSignal (hT : WellFormed table) (h : Tracks table s a)
    (hx : table.get? x = some l) {buf : Bytes} (hbuf : s.txBuffers.get? l.pduId = some buf) :
    s.unpackSignal buf x = .ok (a.raw x * l.factor + l.offset) := by
  obtain ⟨y, m, hy, hm, hlen'⟩ := h.length hbuf
  have hlen : (buf.length : Int) = l.pduLengthBytes := hlen'.trans (hT.sameLength hy hx hm)
  have hlayout : s.getLayout x = .ok l := by rw [getLayout, h.signalTable, hx]
  have hstart : (l.start : Int) = l.offsetBits := Int.toNat_of_nonneg (hT.inside hx).1
  have hfield : field (bitAt buf) l.start l.width = a.raw x := by
    rw [field_eq_mod fun k hk hk' => h.owned hx hbuf ⟨hk, hk'⟩, Nat.mod_eq_of_lt (h.raw_lt hx)]
  have hget := getBits_natCast 0 (hT.start_add_width_le hx hlen)
  rw [hstart, hfield, zero_mul, zero_add] at hget
  rw [SignalPackager.unpackSignal, hlayout]
  change (if (buf.length : Int) ≠ l.pduLengthBytes then _ else _) = _
  rw [if_neg (not_not.mpr hlen), show l.widthBits.toNat = l.width from rfl, hget]
  rfl

theorem packSignal_fst_ok {out : Bytes} (h : (s.packSignal x value).1 = .ok out) :
    ∃ l raw, s.signalTable.get? x = some l ∧ rawValue l x value = .ok raw := by
  unfold SignalPackager.packSignal getLayout at h
  cases hx : s.signalTable.get? x with
  | none =>
    rw [hx] at h
    cases h
  | some l =>
    rw [hx] at h
    cases hraw : rawValue l x value with
    | error e =>
      simp only [hraw] at h
      cases h
    | ok raw => exact ⟨l, raw, rfl, hraw⟩

theorem sendSignal_fst_ok {out : Bytes} (h : (s.sendSignal x value).1 = .ok out) :
    ∃ l raw, s.signalTable.get? x = some l ∧ rawValue l x value = .ok raw := by
  unfold SignalPackager.sendSignal at h
  cases hp : s.packSignal x value with
  | mk r s' =>
    rw [hp] at h
    cases r with
    | error e => cases h
    | ok out' => exact packSignal_fst_ok (congrArg Prod.fst hp)

end Steps

def Call.signalName : Call → String
  | .pack x _ => x
  | .send x _ => x

def Call.value : Call → SignalValue
  | .pack _ v => v
  | .send _ v => v

def Call.packed (c : Call) : Call := .pack c.signalName c.value

/-- The value last packed for `x` since its PDU was last sent. -/
def keepValue (table : Dict String SignalLayout) (x : String) (last : Option ℚ) : Call → Option ℚ
  | .pack y (.number v) => if y = x then some v else last
  | .pack _ .other => last
  | .send y _ =>
    if (table.get? y).map SignalLayout.pduId = (table.get? x).map SignalLayout.pduId then none
    else last

def lastValue (table : Dict String SignalLayout) (x : String) (calls : List Call) : Option ℚ :=
  calls.foldl (keepValue table x) none

theorem lastValue_snoc (table : Dict String SignalLayout) (x : String) (calls : List Call)
    (c : Call) :
    lastValue table x (calls ++ [c]) = keepValue table x (lastValue table x calls) c := by
  rw [lastValue, List.foldl_append]
  rfl

def Follows (table : Dict String SignalLayout) (calls : List Call) (s : SignalPackager)
    (a : Pending) : Prop :=
  Tracks table s a ∧
    ∀ {x l}, table.get? x = some l → (a.raw x : ℤ) = l.rawOf (lastValue table x calls)

section Calls
variable {table : Dict String SignalLayout} {s : SignalPackager} {a : Pending} {x : String}
  {l : SignalLayout} {value : SignalValue} {raw : Nat} {calls : List Call}

theorem Follows.pack (hT : WellFormed table) (h : Follows table calls s a)
    (hx : table.get? x = some l) (hraw : rawValue l x value = .ok raw) :
    ∃ buf, s.packSignal x value =
        (.ok buf, { s with txBuffers := s.txBuffers.set l.pduId buf }) ∧
      Follows table (calls ++ [.pack x value])
        { s with txBuffers := s.txBuffers.set l.pduId buf } (a.pack x l raw) := by
  obtain ⟨buf, hpack, htracks⟩ := h.1.packSignal hT hx hraw
  obtain ⟨v, rfl, -, hv, -⟩ := rawValue_eq_ok.mp hraw
  refine ⟨buf, hpack, htracks, ?_⟩
  intro y m hy
  rw [lastValue_snoc, keepValue]
  by_cases hyx : y = x
  · subst hyx
    obtain rfl : m = l := Option.some.inj (hy.symm.trans hx)
    rw [if_pos rfl, Pending.pack_raw_self, hv]
  · rw [if_neg (Ne.symm hyx), Pending.pack_raw_of_ne _ _ _ _ hyx]
    exact h.2 hy

theorem Follows.send (hT : WellFormed table) (h : Follows table calls s a)
    (hx : table.get? x = some l) (hraw : rawValue l x value = .ok raw) :
    ∃ buf, s.sendSignal x value =
        (.ok buf, { s with txBuffers := (s.txBuffers.set l.pduId buf).erase l.pduId }) ∧
      Follows table (calls ++ [.send x value])
        { s with txBuffers := (s.txBuffers.set l.pduId buf).erase l.pduId }
        ((a.pack x l raw).send table l.pduId) := by
  obtain ⟨buf, hpack, htracks, -⟩ := h.pack hT hx hraw
  refine ⟨buf, ?_, htracks.erase l.pduId, ?_⟩
  · simp only [sendSignal, hpack, getLayout, h.1.signalTable, hx]
  · intro y m hy
    simp only [lastValue_snoc, keepValue, Pending.send, hx, hy, Option.map_some,
      Option.some.injEq]
    by_cases hp : m.pduId = l.pduId
    · rw [if_pos hp, if_pos hp.symm]
      rfl
    · have hyx : y ≠ x := by
        rintro rfl
        exact hp (congrArg _ (Option.some.inj (hy.symm.trans hx)))
      rw [if_neg hp, if_neg (Ne.symm hp), Pending.pack_raw_of_ne _ _ _ _ hyx]
      exact h.2 hy

theorem Follows.step (hT : WellFormed table) (h : Follows table calls s a) {c : Call}
    {out : Bytes} (hout : (s.step c).1 = .ok out) :
    ∃ l a₁ a₂, table.get? c.signalName = some l ∧
      Follows table (calls ++ [c.packed])
        { s with txBuffers := s.txBuffers.set l.pduId out } a₁ ∧
      Follows table (calls ++ [c]) (s.step c).2 a₂ ∧
      ∀ q, q ≠ l.pduId → (s.step c).2.txBuffers.get? q = s.txBuffers.get? q := by
  cases c with
  | pack x value =>
    obtain ⟨l, raw, hx, hraw⟩ := packSignal_fst_ok hout
    rw [h.1.signalTable] at hx
    obtain ⟨buf, hpack, hfollows⟩ := h.pack hT hx hraw
    obtain rfl : buf = out := Except.ok.inj ((congrArg Prod.fst hpack).symm.trans hout)
    have hnext : (s.step (.pack x value)).2 = _ := congrArg Prod.snd hpack
    refine ⟨l, _, _, hx, hfollows, by rw [hnext]; exact hfollows, ?_⟩
    intro q hq
    rw [hnext]
    exact Dict.get?_set_ne _ _ hq
  | send x value =>
    obtain ⟨l, raw, hx, hraw⟩ := sendSignal_fst_ok hout
    rw [h.1.signalTable] at hx
    obtain ⟨buf, hpack, hfollows⟩ := h.pack hT hx hraw
    obtain ⟨buf', hsend, hsent⟩ := h.send hT hx hraw
    obtain rfl : buf' = out := Except.ok.inj ((congrArg Prod.fst hsend).symm.trans hout)
    have hbuf : buf = buf' := by
      have hfst := congrArg Prod.fst hsend
      simp only [sendSignal, hpack, getLayout, h.1.signalTable, hx] at hfst
      exact Except.ok.inj hfst
    subst hbuf
    have hnext : (s.step (.send x value)).2 = _ := congrArg Prod.snd hsend
    refine ⟨l, _, _, hx, hfollows, by rw [hnext]; exact hsent, ?_⟩
    intro q hq
    rw [hnext]
    simp only [Dict.get?_erase, if_neg hq, Dict.get?_set_ne _ _ hq]

end Calls

def Succeed (ecuId : String) (table : Dict String SignalLayout) (calls : List Call) : Prop :=
  ∀ o ∈ machine.outputs (new ecuId table) calls, ∃ out, o = .ok out

theorem succeed_snoc {ecuId : String} {table : Dict String SignalLayout} {calls : List Call}
    {c : Call} : Succeed ecuId table (calls ++ [c]) ↔ Succeed ecuId table calls ∧
      ∃ out, ((machine.exec (new ecuId table) calls).step c).1 = .ok out := by
  simp only [Succeed, Mealy.outputs_append, List.mem_append, or_imp, forall_and]
  refine and_congr_right fun _ => ?_
  constructor
  · intro h
    exact h _ List.mem_cons_self
  · intro h o ho
    rwa [List.mem_singleton.mp ho]

theorem exists_follows {table : Dict String SignalLayout} (hT : WellFormed table)
    (ecuId : String) {calls : List Call} (h : Succeed ecuId table calls) :
    ∃ a, Follows table calls (machine.exec (new ecuId table) calls) a := by
  induction calls using List.reverseRecOn with
  | nil =>
    refine ⟨Pending.none, ⟨rfl, fun _ => rfl, nofun, nofun, nofun, ?_, fun _ _ => rfl⟩, ?_⟩
    · intro x l hx
      exact Nat.two_pow_pos _
    · intro x l hx
      rfl
  | append_singleton calls c ih =>
    obtain ⟨hcalls, out, hout⟩ := succeed_snoc.mp h
    obtain ⟨a, ha⟩ := ih hcalls
    obtain ⟨l, a₁, a₂, -, -, hnext, -⟩ := ha.step hT hout
    rw [Mealy.exec_snoc]
    exact ⟨a₂, hnext⟩

/-! The order in which signals are packed. -/

section Order
variable {table : Dict String SignalLayout} {s t : SignalPackager} {a : Pending}

theorem Tracks.buffers_eq (hT : WellFormed table) (hs : Tracks table s a) (ht : Tracks table t a)
    (q : Int) : s.txBuffers.get? q = t.txBuffers.get? q := by
  have hbegun := (hs.begun q).symm.trans (ht.begun q)
  cases hsq : s.txBuffers.get? q with
  | none =>
    rw [hsq] at hbegun
    exact (Option.isSome_eq_false_iff.mp hbegun.symm |> Option.isNone_iff_eq_none.mp).symm
  | some buf =>
    rw [hsq] at hbegun
    obtain ⟨buf', htq⟩ := Option.isSome_iff_exists.mp hbegun.symm
    obtain ⟨x, l, hx, hl, hlen⟩ := hs.length hsq
    obtain ⟨y, m, hy, hm, hlen'⟩ := ht.length htq
    have hsame := hT.sameLength hx hy (hl.trans hm.symm)
    have hbits : ∀ k, bitAt buf k = bitAt buf' k := by
      intro k
      by_cases hk : ∃ z n, table.get? z = some n ∧ n.pduId = q ∧ n.Owns k
      · obtain ⟨z, n, hz, rfl, hown⟩ := hk
        rw [hs.owned hz hsq hown, ht.owned hz htq hown]
      · push Not at hk
        rw [hs.unowned hsq hk, ht.unowned htq hk]
    rw [htq, bytes_ext (by omega) hbits]

theorem Pending.pack_comm {x y : String} (hxy : x ≠ y) (l m : SignalLayout) (i j : Nat) :
    (a.pack x l i).pack y m j = (a.pack y m j).pack x l i := by
  ext z
  · exact congrFun (Function.update_comm hxy i j a.raw) z
  · simp only [Pending.pack, Function.update_apply]
    split <;> split <;> rfl

def encode (table : Dict String SignalLayout) (p : String × SignalValue) :
    Option (SignalLayout × Nat) := do
  let l ← table.get? p.1
  let raw ← (rawValue l p.1 p.2).toOption
  return (l, raw)

def Pending.packCall (table : Dict String SignalLayout) (a : Pending)
    (p : String × SignalValue) : Pending :=
  (encode table p).elim a fun e => a.pack p.1 e.1 e.2

theorem Pending.packCall_comm {p q : String × SignalValue} (h : p.1 ≠ q.1) :
    packCall table (packCall table a p) q = packCall table (packCall table a q) p := by
  unfold packCall
  cases encode table p with
  | none => rfl
  | some e =>
    cases encode table q with
    | none => rfl
    | some f => exact Pending.pack_comm h e.1 f.1 e.2 f.2

theorem Tracks.packCall (hT : WellFormed table) (h : Tracks table s a)
    (p : String × SignalValue) :
    Tracks table (s.packSignal p.1 p.2).2 (Pending.packCall table a p) := by
  cases hx : table.get? p.1 with
  | none =>
    have hencode : encode table p = none := by rw [encode, hx]; rfl
    simp only [SignalPackager.packSignal, getLayout, h.signalTable, hx, Pending.packCall, hencode]
    exact h
  | some l =>
    cases hraw : rawValue l p.1 p.2 with
    | error e =>
      have hencode : encode table p = none := by
        rw [encode, hx]
        simp only [Option.bind_eq_bind, Option.bind_some, hraw]
        rfl
      simp only [SignalPackager.packSignal, getLayout, h.signalTable, hx, hraw, Pending.packCall,
        hencode]
      exact h
    | ok raw =>
      have hencode : encode table p = some (l, raw) := by
        rw [encode, hx]
        simp only [Option.bind_eq_bind, Option.bind_some, hraw]
        rfl
      obtain ⟨buf, hpack, htracks⟩ := h.packSignal hT hx hraw
      rw [hpack, Pending.packCall, hencode]
      exact htracks

def packAll (s : SignalPackager) (packs : List (String × SignalValue)) : SignalPackager :=
  machine.exec s (packs.map fun p => .pack p.1 p.2)

theorem Tracks.packAll (hT : WellFormed table) (h : Tracks table s a)
    (packs : List (String × SignalValue)) :
    Tracks table (s.packAll packs) (packs.foldl (Pending.packCall table) a) := by
  induction packs generalizing s a with
  | nil => exact h
  | cons p packs ih => exact ih (h.packCall hT p)

theorem Tracks.packAll_perm (hT : WellFormed table) (h : Tracks table s a)
    {packs packs' : List (String × SignalValue)} (hperm : packs.Perm packs')
    (hnames : (packs.map Prod.fst).Nodup) (q : Int) :
    (s.packAll packs).txBuffers.get? q = (s.packAll packs').txBuffers.get? q := by
  have hpending : packs.foldl (Pending.packCall table) a =
      packs'.foldl (Pending.packCall table) a := by
    apply hperm.foldl_eq'
    intro p hp p' hp' b
    by_cases hpp : p = p'
    · rw [hpp]
    · exact Pending.packCall_comm fun hfst => hpp (List.inj_on_of_nodup_map hnames hp hp' hfst)
  exact (h.packAll hT packs).buffers_eq hT (hpending ▸ h.packAll hT packs') q

end Order

theorem unpackSignal_congr {s t : SignalPackager} (h : s.signalTable = t.signalTable)
    (data : Bytes) (x : String) : s.unpackSignal data x = t.unpackSignal data x := by
  rw [unpackSignal, unpackSignal, getLayout, getLayout, h]

theorem abs_decoded_sub_le {l : SignalLayout} (hfactor : l.factor ≠ 0) (v : ℚ) :
    |l.rawOf (some v) * l.factor + l.offset - v| ≤ |l.factor| / 2 := by
  have hround := Js.abs_roundEven_sub_le ((v - l.offset) / l.factor)
  have hscale : l.rawOf (some v) * l.factor + l.offset - v =
      (Js.roundEven ((v - l.offset) / l.factor) - (v - l.offset) / l.factor) * l.factor := by
    rw [SignalLayout.rawOf, sub_mul, div_mul_cancel₀ _ hfactor]
    ring
  calc |l.rawOf (some v) * l.factor + l.offset - v|
      = |(Js.roundEven ((v - l.offset) / l.factor) : ℚ) - (v - l.offset) / l.factor| *
          |l.factor| := by rw [hscale, abs_mul]
    _ ≤ 1 / 2 * |l.factor| := mul_le_mul_of_nonneg_right hround (abs_nonneg _)
    _ = |l.factor| / 2 := by ring

/-- **Signal transport.** The buffer of the latest call on a PDU unpacks to the values last packed
since the PDU was last sent; the other PDUs are untouched, and the order of packs of different
signals does not matter. -/
theorem signals_preserved {table : Dict String SignalLayout} (hT : WellFormed table)
    (ecuId : String) {calls : List Call} {c : Call} (hok : Succeed ecuId table (calls ++ [c])) :
    ∃ m out, table.get? c.signalName = some m ∧
      ((machine.exec (new ecuId table) calls).step c).1 = .ok out ∧
      (∀ x l, table.get? x = some l → l.pduId = m.pduId →
        (machine.exec (new ecuId table) (calls ++ [c])).unpackSignal out x =
          .ok (l.rawOf (lastValue table x (calls ++ [c.packed])) * l.factor + l.offset)) ∧
      (∀ x l v, table.get? x = some l → |l.rawOf (some v) * l.factor + l.offset - v| ≤
        |l.factor| / 2) ∧
      (∀ q, q ≠ m.pduId → (machine.exec (new ecuId table) (calls ++ [c])).txBuffers.get? q =
        (machine.exec (new ecuId table) calls).txBuffers.get? q) ∧
      ∀ packs packs' : List (String × SignalValue), packs.Perm packs' →
        (packs.map Prod.fst).Nodup → ∀ q,
          ((machine.exec (new ecuId table) (calls ++ [c])).packAll packs).txBuffers.get? q =
            ((machine.exec (new ecuId table) (calls ++ [c])).packAll packs').txBuffers.get? q := by
  obtain ⟨hcalls, out, hout⟩ := succeed_snoc.mp hok
  obtain ⟨a, ha⟩ := exists_follows hT ecuId hcalls
  obtain ⟨m, a₁, a₂, hm, hpacked, hnext, hothers⟩ := ha.step hT hout
  rw [Mealy.exec_snoc]
  refine ⟨m, out, hm, hout, ?_, ?_, hothers, ?_⟩
  · intro x l hx hp
    have hbuf : (({ machine.exec (new ecuId table) calls with
        txBuffers := (machine.exec (new ecuId table) calls).txBuffers.set m.pduId out } :
        SignalPackager).txBuffers.get? l.pduId) = some out := by
      rw [hp]
      exact Dict.get?_set_self _ _ _
    have hunpack := hpacked.1.unpackSignal hT hx hbuf
    rw [← hpacked.2 hx, Int.cast_natCast, ← hunpack]
    exact unpackSignal_congr (hnext.1.signalTable.trans hpacked.1.signalTable.symm) _ _
  · intro x l v hx
    exact abs_decoded_sub_le (hT.factor_ne hx) v
  · intro packs packs' hperm hnames q
    exact hnext.1.packAll_perm hT hperm hnames q

section Example

def exampleTable : Dict String SignalLayout :=
  ((Dict.empty.set "speed" ⟨"speed", 256, 2, 3, 7, 1, 0⟩).set
    "angle" ⟨"angle", 256, 2, 10, 6, 1 / 2, -8⟩).set "brake" ⟨"brake", 257, 1, 0, 1, 1, 0⟩

theorem exampleTable_get? {x : String} {l : SignalLayout} (h : exampleTable.get? x = some l) :
    x = "brake" ∧ l = ⟨"brake", 257, 1, 0, 1, 1, 0⟩ ∨
      x = "angle" ∧ l = ⟨"angle", 256, 2, 10, 6, 1 / 2, -8⟩ ∨
      x = "speed" ∧ l = ⟨"speed", 256, 2, 3, 7, 1, 0⟩ := by
  simp only [exampleTable, Dict.get?_set] at h
  split at h
  · next hx => exact .inl ⟨hx, (Option.some.inj h).symm⟩
  split at h
  · next hx => exact .inr (.inl ⟨hx, (Option.some.inj h).symm⟩)
  split at h
  · next hx => exact .inr (.inr ⟨hx, (Option.some.inj h).symm⟩)
  · cases h

theorem exampleTable_wellFormed : WellFormed exampleTable := by
  refine ⟨?_, ?_, ?_, ?_⟩
  · intro x l hx
    rcases exampleTable_get? hx with ⟨-, rfl⟩ | ⟨-, rfl⟩ | ⟨-, rfl⟩ <;> decide
  · intro x y l m hx hy
    rcases exampleTable_get? hx with ⟨-, rfl⟩ | ⟨-, rfl⟩ | ⟨-, rfl⟩ <;>
      rcases exampleTable_get? hy with ⟨-, rfl⟩ | ⟨-, rfl⟩ | ⟨-, rfl⟩ <;> decide
  · intro x y l m hx hy hp hne k hk hk'
    simp only [SignalLayout.Owns, SignalLayout.start, SignalLayout.width] at hk hk'
    rcases exampleTable_get? hx with ⟨rfl, rfl⟩ | ⟨rfl, rfl⟩ | ⟨rfl, rfl⟩ <;>
      rcases exampleTable_get? hy with ⟨rfl, rfl⟩ | ⟨rfl, rfl⟩ | ⟨rfl, rfl⟩ <;>
      simp_all <;> omega
  · intro x l hx
    rcases exampleTable_get? hx with ⟨-, rfl⟩ | ⟨-, rfl⟩ | ⟨-, rfl⟩ <;> norm_num

theorem signals_preserved_example : ∃ out,
    ((machine.exec (new "ECU_A" exampleTable) [.pack "speed" (.number 77)]).step
      (.pack "angle" (.number 2))).1 = .ok out ∧
    (machine.exec (new "ECU_A" exampleTable)
      [.pack "speed" (.number 77), .pack "angle" (.number 2)]).unpackSignal out "speed" =
        .ok 77 := by
  have hok : Succeed "ECU_A" exampleTable
      ([.pack "speed" (.number 77)] ++ [.pack "angle" (.number 2)]) := by
    intro o ho
    rcases List.mem_cons.mp ho with rfl | ho
    · exact ⟨[19, 64], by decide +kernel⟩
    · exact ⟨[19, 84], (List.mem_singleton.mp ho).trans (by decide +kernel)⟩
  obtain ⟨m, out, hm, hout, hunpack, -⟩ := signals_preserved exampleTable_wellFormed "ECU_A" hok
  have hpdu : 256 = m.pduId := congrArg SignalLayout.pduId (Option.some.inj hm)
  have hspeed := hunpack "speed" _ rfl hpdu
  refine ⟨out, hout, hspeed.trans ?_⟩
  decide +kernel

end Example

end SignalPackager
end SecOC
