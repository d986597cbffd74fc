import SecOC.Sim.SignalPackager

/-! What a pack that fails leaves in the buffers, and what one that succeeds changes, for any
table. How a value is scaled to its raw number is a parameter here, and so is what a value is. -/

namespace SecOC.SignalPackager
open Py

inductive Request (α : Type)
  | pack (signalName : String) (value : α)
  | send (signalName : String) (value : α)

namespace Request
variable {α : Type}

def signalName : Request α → String
  | .pack signalName _ => signalName
  | .send signalName _ => signalName

def value : Request α → α
  | .pack _ value => value
  | .send _ value => value

def leaves (request : Request α) (buffers : Dict Int Bytes) (pduId : Int) (out : Bytes) :
    Dict Int Bytes :=
  match request with
  | .pack _ _ => buffers.set pduId out
  | .send _ _ => buffers.erase pduId

end Request

variable {α : Type} (scale : SignalLayout → String → α → Except SignalError Nat)
  (s : SignalPackager)

/-- `pack_signal` with any scaling. -/
def packWith (signalName : String) (value : α) : Except SignalError Bytes × SignalPackager :=
  match s.getLayout signalName with
  | .error e => (.error e, s)
  | .ok layout => match scale layout signalName value with
    | .error e => (.error e, s)
    | .ok raw => match bytearray layout.pduLengthBytes with
      | .error e => (.error e, s)
      | .ok fresh =>
        let (done, buf) := setBits (s.txBuffers.getD layout.pduId fresh) layout.offsetBits raw
          layout.widthBits.toNat
        (done.map fun _ => buf, { s with txBuffers := s.txBuffers.set layout.pduId buf })

def sendWith (signalName : String) (value : α) : Except SignalError Bytes × SignalPackager :=
  match s.packWith scale signalName value with
  | (.error e, s') => (.error e, s')
  | (.ok authenticPdu, s') => match s'.getLayout signalName with
    | .error e => (.error e, s')
    | .ok layout =>
      (.ok authenticPdu, { s' with txBuffers := s'.txBuffers.erase layout.pduId })

def serve : Request α → Except SignalError Bytes × SignalPackager
  | .pack signalName value => s.packWith scale signalName value
  | .send signalName value => s.sendWith scale signalName value

theorem serve_rawValue (signalName : String) (value : SignalValue) :
    s.serve rawValue (.pack signalName value) = s.step (.pack signalName value) ∧
      s.serve rawValue (.send signalName value) = s.step (.send signalName value) :=
  ⟨rfl, rfl⟩

def pendingBuffer (layout : SignalLayout) : Bytes :=
  s.txBuffers.getD layout.pduId (List.replicate layout.pduLengthBytes.toNat 0)

def setField (layout : SignalLayout) (raw : Nat) : Except SignalError Unit × Bytes :=
  setBits (s.pendingBuffer layout) layout.offsetBits raw layout.widthBits.toNat

def Fits (layout : SignalLayout) : Prop :=
  Completes (8 * (s.pendingBuffer layout).length) layout.offsetBits layout.widthBits.toNat

def written (layout : SignalLayout) (raw j : Nat) : Option Bool :=
  writtenBit (8 * (s.pendingBuffer layout).length) layout.offsetBits raw layout.widthBits.toNat j

def OwnBit (layout : SignalLayout) (j : Nat) : Prop :=
  layout.offsetBits ≤ j ∧ j < layout.offsetBits + layout.widthBits.toNat

def OwnBitsOnly (layout : SignalLayout) (old new : Bytes) : Prop :=
  new.length = old.length ∧ ∀ j, ¬OwnBit layout j → bitAt new j = bitAt old j

/-- A failed request leaves all buffers as they were, a successful one writes to its own field. -/
def Intact (request : Request α) : Prop :=
  match s.serve scale request with
  | (.error _, s') => s'.txBuffers = s.txBuffers
  | (.ok out, s') => ∃ layout, s.signalTable.get? request.signalName = some layout ∧
      OwnBitsOnly layout (s.pendingBuffer layout) out ∧
      s' = { s with txBuffers := request.leaves s.txBuffers layout.pduId out }

def Spares (layout : SignalLayout) (raw j : Nat) : Prop :=
  ∀ v, s.written layout raw j = some v → bitAt (s.pendingBuffer layout) j = v

/-- The request ends before the loop; or the loop gets through its field, and the bits it writes
elsewhere are there already; or it fails, and the buffer is there with all it writes. -/
def Harmless (request : Request α) : Prop :=
  ∀ layout raw, s.signalTable.get? request.signalName = some layout →
    scale layout request.signalName request.value = .ok raw → 0 ≤ layout.pduLengthBytes →
    (s.Fits layout → ∀ j < 8 * (s.pendingBuffer layout).length,
      ¬OwnBit layout j → s.Spares layout raw j) ∧
    (¬s.Fits layout → s.txBuffers.get? layout.pduId = some (s.pendingBuffer layout) ∧
      ∀ j < 8 * (s.pendingBuffer layout).length, s.Spares layout raw j)

section Steps
variable {scale s} {x : String} {value : α} {request : Request α} {layout : SignalLayout}
  {raw : Nat}

theorem packWith_cases (scale : SignalLayout → String → α → Except SignalError Nat)
    (s : SignalPackager) (x : String) (value : α) :
    (∃ e, s.packWith scale x value = (.error e, s) ∧
      ∀ layout raw, s.signalTable.get? x = some layout → scale layout x value = .ok raw →
        ¬0 ≤ layout.pduLengthBytes) ∨
    ∃ layout raw, s.signalTable.get? x = some layout ∧ scale layout x value = .ok raw ∧
      0 ≤ layout.pduLengthBytes ∧ s.packWith scale x value =
        ((s.setField layout raw).1.map fun _ => (s.setField layout raw).2,
          { s with
            txBuffers := s.txBuffers.set layout.pduId (s.setField layout raw).2 }) := by
  unfold packWith getLayout
  cases hlayout : s.signalTable.get? x with
  | none => exact Or.inl ⟨_, rfl, nofun⟩
  | some layout =>
    dsimp only
    cases hraw : scale layout x value with
    | error e =>
      refine Or.inl ⟨e, rfl, ?_⟩
      rintro _ raw ⟨⟩ hraw'
      cases hraw.symm.trans hraw'
    | ok raw =>
      by_cases hlength : layout.pduLengthBytes < 0
      · have hbytearray : bytearray layout.pduLengthBytes = .error .valueError := if_pos hlength
        refine Or.inl ⟨.valueError, by simp only [hbytearray], ?_⟩
        rintro _ _ ⟨⟩ -
        exact not_le.mpr hlength
      · have hbytearray : bytearray layout.pduLengthBytes = .ok _ := if_neg hlength
        refine Or.inr ⟨layout, raw, rfl, hraw, not_lt.mp hlength, ?_⟩
        simp only [hbytearray]
        rfl

theorem serve_of_error {e : SignalError} {s' : SignalPackager}
    (h : s.packWith scale request.signalName request.value = (.error e, s')) :
    s.serve scale request = (.error e, s') := by
  cases request with
  | pack x value => exact h
  | send x value =>
    have hpack : s.packWith scale x value = (.error e, s') := h
    simp only [serve, sendWith, hpack]

theorem serve_of_ok {out : Bytes}
    (hlayout : s.signalTable.get? request.signalName = some layout)
    (h : s.packWith scale request.signalName request.value =
      (.ok out, { s with txBuffers := s.txBuffers.set layout.pduId out })) :
    s.serve scale request =
      (.ok out, { s with txBuffers := request.leaves s.txBuffers layout.pduId out }) := by
  cases request with
  | pack x value => exact h
  | send x value =>
    have hpack : s.packWith scale x value = _ := h
    have hget : s.signalTable.get? x = some layout := hlayout
    simp only [serve, sendWith, hpack, getLayout, hget, Request.leaves, Dict.erase_set_self]

theorem setField_spec (s : SignalPackager) (layout : SignalLayout) (raw : Nat) :
    (s.Fits layout → (s.setField layout raw).1 = .ok ()) ∧
    (¬s.Fits layout → (s.setField layout raw).1 = .error .indexError) ∧
    (s.setField layout raw).2.length = (s.pendingBuffer layout).length ∧
    ∀ j < 8 * (s.pendingBuffer layout).length, bitAt (s.setField layout raw).2 j =
      (s.written layout raw j).getD (bitAt (s.pendingBuffer layout) j) := by
  obtain ⟨buf, hset, hlen, hbits⟩ := setBits_spec (s.pendingBuffer layout) layout.offsetBits raw
    layout.widthBits.toNat
  rw [setField, hset]
  exact ⟨fun h => if_pos h, fun h => if_neg h, hlen, hbits⟩

theorem spares_iff {j : Nat} (hj : j < 8 * (s.pendingBuffer layout).length) :
    s.Spares layout raw j ↔
      bitAt (s.setField layout raw).2 j = bitAt (s.pendingBuffer layout) j := by
  rw [(setField_spec s layout raw).2.2.2 j hj, Spares]
  cases s.written layout raw j with
  | none => simp
  | some v => simp [eq_comm]

theorem ownBitsOnly_iff :
    OwnBitsOnly layout (s.pendingBuffer layout) (s.setField layout raw).2 ↔
      ∀ j < 8 * (s.pendingBuffer layout).length, ¬OwnBit layout j → s.Spares layout raw j := by
  have hlen := (setField_spec s layout raw).2.2.1
  constructor
  · intro h j hj hout
    exact (spares_iff hj).mpr (h.2 j hout)
  · refine fun h => ⟨hlen, fun j hout => ?_⟩
    by_cases hj : j < 8 * (s.pendingBuffer layout).length
    · exact (spares_iff hj).mp (h j hj hout)
    · rw [bitAt_of_le (by omega), bitAt_of_le (by omega)]

theorem set_buffer_iff :
    s.txBuffers.set layout.pduId (s.setField layout raw).2 = s.txBuffers ↔
      s.txBuffers.get? layout.pduId = some (s.pendingBuffer layout) ∧
        ∀ j < 8 * (s.pendingBuffer layout).length, s.Spares layout raw j := by
  have hsame : (s.setField layout raw).2 = s.pendingBuffer layout ↔
      ∀ j < 8 * (s.pendingBuffer layout).length, s.Spares layout raw j := by
    rw [bytes_eq_iff (setField_spec s layout raw).2.2.1]
    exact forall₂_congr fun j hj => (spares_iff hj).symm
  rw [Dict.set_eq_self_iff, ← hsame]
  constructor
  · intro h
    have hpending : s.pendingBuffer layout = (s.setField layout raw).2 := by
      conv_lhs => rw [pendingBuffer, Dict.getD, h, Option.getD_some]
    exact ⟨hpending ▸ h, hpending.symm⟩
  · rintro ⟨h, heq⟩
    exact heq ▸ h

end Steps

/-- **A request spares the buffers just where it is harmless.** -/
theorem intact_iff (scale : SignalLayout → String → α → Except SignalError Nat)
    (s : SignalPackager) (request : Request α) :
    Intact scale s request ↔ Harmless scale s request := by
  rcases packWith_cases scale s request.signalName request.value with
    ⟨e, hpack, hnone⟩ | ⟨layout, raw, hlayout, hraw, hlength, hpack⟩
  · rw [Intact, serve_of_error hpack]
    exact iff_of_true rfl fun layout raw hlayout hraw h => absurd h (hnone layout raw hlayout hraw)
  · have hharmless : Harmless scale s request ↔
        (s.Fits layout → ∀ j < 8 * (s.pendingBuffer layout).length,
          ¬OwnBit layout j → s.Spares layout raw j) ∧
        (¬s.Fits layout → s.txBuffers.get? layout.pduId = some (s.pendingBuffer layout) ∧
          ∀ j < 8 * (s.pendingBuffer layout).length, s.Spares layout raw j) := by
      constructor
      · exact fun h => h layout raw hlayout hraw hlength
      · rintro h _ _ hlayout' hraw' -
        cases hlayout.symm.trans hlayout'
        cases hraw.symm.trans hraw'
        exact h
    rw [hharmless, ← ownBitsOnly_iff, ← set_buffer_iff]
    by_cases hfits : s.Fits layout
    · rw [(setField_spec s layout raw).1 hfits] at hpack
      rw [Intact, serve_of_ok hlayout hpack]
      constructor
      · rintro ⟨layout', hlayout', hown, -⟩
        cases hlayout.symm.trans hlayout'
        exact ⟨fun _ => hown, fun h => absurd hfits h⟩
      · exact fun h => ⟨layout, hlayout, h.1 hfits, rfl⟩
    · rw [(setField_spec s layout raw).2.1 hfits] at hpack
      rw [Intact, serve_of_error hpack]
      constructor
      · exact fun h => ⟨fun h' => absurd h' hfits, fun _ => h⟩
      · exact fun h => h.2 hfits

def overlong : SignalLayout where
  signalName := "SPEED"
  pduId := 1
  pduLengthBytes := 1
  offsetBits := 4
  widthBits := 8
  factor := 1
  offset := 0

def overlongPackager : SignalPackager := .new "ECU" (Dict.ofItems [("SPEED", overlong)])

theorem overlong_pack_not_intact :
    ¬Intact rawValue overlongPackager (.pack "SPEED" (.number (255 : Int))) := by
  -- the failed pack leaves a buffer with the four bits that were written
  intro hintact
  have hraw : rawValue overlong "SPEED" (.number (255 : Int)) = .ok 255 := by
    decide +kernel
  have hserve : overlongPackager.serve rawValue (.pack "SPEED" (.number (255 : Int))) =
      (.error .indexError, { overlongPackager with
        txBuffers := Dict.empty.set 1 [0x0F] }) := by
    have hget : overlongPackager.getLayout "SPEED" = .ok overlong := rfl
    simp only [serve, packWith, hget, hraw]
    rfl
  rw [Intact, hserve] at hintact
  have hbuffer := congrArg (fun d : Dict Int Bytes => d.get? 1) hintact
  exact absurd hbuffer (by decide)

theorem harmless_of_inside (scale : SignalLayout → String → α → Except SignalError Nat)
    {s : SignalPackager} {request : Request α}
    (h : ∀ layout, s.signalTable.get? request.signalName = some layout → 0 ≤ layout.offsetBits ∧
      layout.offsetBits + layout.widthBits.toNat ≤ 8 * (s.pendingBuffer layout).length) :
    Harmless scale s request := by
  intro layout raw hlayout _ _
  obtain ⟨hstart, hend⟩ := h layout hlayout
  have hfits : s.Fits layout := by
    refine Or.inr ⟨by omega, ?_⟩
    exact_mod_cast hend
  refine ⟨fun _ j hj hout v hv => ?_, fun hfails => absurd hfits hfails⟩
  unfold OwnBit at hout
  unfold written writtenBit at hv
  rw [if_neg (by omega), if_neg hout, if_neg (by omega)] at hv
  cases hv

end SecOC.SignalPackager
