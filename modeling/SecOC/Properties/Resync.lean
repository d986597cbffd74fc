import SecOC.Lib.CounterLink
import SecOC.Properties.Tampering
import SecOC.Sim.Link

/-! Two stacks over a network. The sender's counter does not move by sending, so a link is a
counter link: what is accepted was sent, once and in order, and each resynchronisation buys the
acceptance of one more frame. -/

namespace SecOC
open Py FreshnessManager Stack

/-- A PDU on a transport with what both ends know of it: its key, its field lengths and the
window of the receiver. -/
structure Channel where
  pduId : String
  transport : Transport
  key : Bytes
  freshLen : Nat
  macLen : Nat
  windowSize : Int
  macLen_pos : 0 < macLen
  macLen_le : macLen ≤ 32
  window_pos : 1 ≤ windowSize
  window_le : windowSize ≤ 2 ^ (freshLen * 8)

namespace Channel
variable (c : Channel) {D : Digests} {s s' : Stack}

def tag (D : Digests) (payload : Bytes) (counter : Int) : Bytes :=
  (D.hmacSha256 c.key (region payload counter c.freshLen)).take c.macLen

def frame (D : Digests) (payload : Bytes) (counter : Int) : Bytes :=
  region payload counter c.freshLen ++ c.tag D payload counter

theorem tag_length (D : Digests) (payload : Bytes) (counter : Int) :
    (c.tag D payload counter).length = c.macLen := by
  rw [tag, List.length_take, D.hmacSha256_length, min_eq_left c.macLen_le]

/-- The stack holds the channel's key, and nothing it needs to send or receive is missing. -/
structure Serves (s : Stack) : Prop where
  ready : ∃ R : MacReady s c.pduId c.transport, R.key = c.key ∧ R.freshLen = c.freshLen ∧
    R.macLen = c.macLen ∧ s.csm.hsm.keyStore.get? R.keyId = some (.symmetric c.key)
  disk : s.nvm.diskFault = false
  freshness : s.freshnessManager =
    { windowSize := c.windowSize, freshnessLength := c.freshLen }

variable {c}

theorem Serves.of_extends (h : c.Serves s) (hx : Extends s s') : c.Serves s' where
  ready := by
    obtain ⟨R, hkey, hn, hm, hstored⟩ := h.ready
    obtain ⟨R', -, hid, hn', hm', hkey'⟩ := R.exists_transfer hx
    refine ⟨R', ?_, hn'.trans hn, hm'.trans hm, ?_⟩
    · rw [hkey' (by rw [hstored]; exact Option.some_ne_none _), hkey]
    · rw [hid]
      exact hx.key_persists hstored
  disk := hx.diskFault.trans h.disk
  freshness := hx.freshnessManager.trans h.freshness

theorem Serves.reinitialized (h : c.Serves s) (counter : Int) :
    c.Serves { s with nvm := (reinitializeWindow s.nvm c.pduId counter).2 } where
  ready := by
    obtain ⟨R, hkey, hn, hm, hstored⟩ := h.ready
    have hmeta : (reinitializeWindow s.nvm c.pduId counter).2.read (KeyStorage.nvmKey c.pduId) =
        s.nvm.read (KeyStorage.nvmKey c.pduId) :=
      read_commitFreshness _ _ _ _ (nvmKey_ne_lastValidKey _ _) (nvmKey_ne_windowKey _ _)
    refine ⟨{ R with resolved := ?_ }, hkey, hn, hm, hstored⟩
    rw [← R.resolved]
    unfold resolveKeyId KeyManager.resolveKey KeyStorage.getKeyMetadata
    rw [hmeta]
  disk := (commitFreshness_diskFault _ _ _).trans h.disk
  freshness := h.freshness

theorem Serves.modulus (h : c.Serves s) : s.freshnessManager.modulus = 2 ^ (c.freshLen * 8) := by
  rw [h.freshness]
  rfl

theorem Serves.window (h : c.Serves s) : s.freshnessManager.windowSize = c.windowSize := by
  rw [h.freshness]

theorem Serves.macReady_eq (h : c.Serves s) (R : MacReady s c.pduId c.transport) :
    R.key = c.key ∧ R.freshLen = c.freshLen ∧ R.macLen = c.macLen := by
  obtain ⟨R', hkey, hn, hm, -⟩ := h.ready
  obtain ⟨hn', hm'⟩ := R.lengths_of R'.found R'.lengths
  exact ⟨(R.key_unique R').trans hkey, hn'.trans hn, hm'.trans hm⟩

theorem Serves.tag_eq (h : c.Serves s) (R : MacReady s c.pduId c.transport) (payload : Bytes)
    (counter : Int) : R.tag D payload counter = c.tag D payload counter := by
  obtain ⟨hkey, hn, hm⟩ := h.macReady_eq R
  rw [R.tag_eq_take hm, hkey, hn, tag]

theorem Serves.frame_eq (h : c.Serves s) {payload : Bytes}
    (T : Transmission s c.pduId payload c.transport) :
    T.frame D = c.frame D (padded c.transport payload) (T.lastValid + 1) := by
  rw [Transmission.frame, Transmission.region, h.tag_eq, (h.macReady_eq T.toMacReady).2.1, frame]

theorem Serves.verified_eq (h : c.Serves s) {securedPdu : Bytes}
    (A : Acceptance D s c.pduId securedPdu c.transport) :
    region A.payload A.counter A.freshLen ++ A.mac = c.frame D A.payload A.counter := by
  rw [(h.macReady_eq A.toMacReady).2.1, ← A.verified, h.tag_eq, frame]

theorem Serves.accepted_eq (h : c.Serves s) {securedPdu : Bytes}
    (A : Acceptance D s c.pduId securedPdu c.transport) :
    securedPdu = region A.payload A.counter A.freshLen ++ A.mac := by
  obtain ⟨-, hn, hm⟩ := h.macReady_eq A.toMacReady
  have hle : A.freshLen ≤ s.freshnessManager.freshnessLength := by
    rw [h.freshness, hn]
  exact (A.frame_eq hle hm c.macLen_pos).1

theorem frame_inj {a b : Bytes} {v w : Int} (h : c.frame D a v = c.frame D b w) :
    a = b ∧ v ≡ w [ZMOD 2 ^ (c.freshLen * 8)] := by
  have hlen : (c.tag D a v).length = (c.tag D b w).length := by
    rw [tag_length, tag_length]
  exact region_inj (List.append_inj' h hlen).1

theorem Serves.receive (h : c.Serves s) {counter v : Int} {payload : Bytes}
    (hL : lastValid s.nvm c.pduId = .ok counter) (hlt : counter < v)
    (hle : v ≤ counter + c.windowSize) (ha : c.transport = .classicCan → payload.length = 4) :
    (s.receiveSecured D c.pduId (c.frame D payload v) c.transport).1 = .ok (some payload) ∧
      lastValid (s.receiveSecured D c.pduId (c.frame D payload v) c.transport).2.nvm c.pduId =
        .ok v := by
  obtain ⟨R, -⟩ := h.ready
  obtain ⟨-, hn, hm⟩ := h.macReady_eq R
  have hpos : (0 : Int) < 2 ^ (c.freshLen * 8) := by positivity
  have hwire : ((v % 2 ^ (c.freshLen * 8)).toNat : Int) = v % 2 ^ (c.freshLen * 8) :=
    Int.toNat_of_nonneg (Int.emod_nonneg _ hpos.ne')
  have hl : R.profile.truncationLengths c.transport =
      .ok ((c.freshLen : Int), (c.macLen : Int)) := by
    rw [R.lengths, hn, hm]
  have hfield : (fromBytesBE (toBytesBE c.freshLen (v % 2 ^ (c.freshLen * 8)).toNat) : Int) =
      v % 2 ^ (c.freshLen * 8) := fromBytesBE_freshnessBytes (freshnessBytes_eq v c.freshLen)
  have hparse := parse_of_sized hl (toBytesBE_length c.freshLen (v % 2 ^ (c.freshLen * 8)).toNat)
    (c.tag_length D payload v) ha
  rw [if_pos (Nat.add_pos_right _ c.macLen_pos)] at hparse
  have hnext : Residue.next counter (v % 2 ^ (c.freshLen * 8)) (2 ^ (c.freshLen * 8)) = v :=
    Residue.next_eq hpos hlt (hle.trans (Int.add_le_add_left c.window_le _))
  have hfresh : s.freshnessManager.validateFreshness s.nvm c.pduId
      (fromBytesBE (toBytesBE c.freshLen (v % 2 ^ (c.freshLen * 8)).toNat)) = .ok (true, v) := by
    rw [validateFreshness_eq _ _ _ _ hL, hfield, h.modulus, h.window, hnext, if_pos hle]
  let A : Acceptance D s c.pduId (c.frame D payload v) c.transport :=
    ⟨R, payload, _, c.tag D payload v, v, hparse, hfresh, h.tag_eq R payload v⟩
  refine ⟨?_, A.lastValid_after⟩
  rw [A.accepted h.disk]

end Channel

namespace Link
variable {D : Digests} {c : Channel} {l : Link} {x : CounterLink Bytes} {floor : Int}

abbrev machineOf (D : Digests) (c : Channel) : Mealy Link LinkOp LinkEvent :=
  machine D c.pduId c.transport

/-- Both ends serve the channel, and have a counter for its PDU. -/
structure Serves (c : Channel) (l : Link) : Prop where
  sender : c.Serves l.sender
  receiver : c.Serves l.receiver
  counted : ∃ v, lastValid l.sender.nvm c.pduId = .ok v
  accepted : ∃ v, lastValid l.receiver.nvm c.pduId = .ok v

theorem send_eq {a : Bytes} (T : Transmission l.sender c.pduId a c.transport) :
    (machineOf D c).step l (.send a) = (.sent a (.ok (T.frame D)),
      { l with sender := T.after, network := l.network ++ [T.frame D] }) := by
  change l.send D c.pduId c.transport a = _
  simp only [send, T.transmitSecured_eq]

theorem send_cases (D : Digests) (c : Channel) (l : Link) (payload : Bytes) :
    (∃ T : Transmission l.sender c.pduId payload c.transport,
      l.send D c.pduId c.transport payload = (.sent payload (.ok (T.frame D)),
        { l with sender := T.after, network := l.network ++ [T.frame D] })) ∨
    ∃ e sender, Extends l.sender sender ∧ sender.nvm = l.sender.nvm ∧
      l.send D c.pduId c.transport payload =
        (.sent payload (.error e), { l with sender := sender }) := by
  rcases isEmpty_or_nonempty (Transmission l.sender c.pduId payload c.transport) with hT | ⟨⟨T⟩⟩
  · have hx := transmitSecured_extends (D := D) (s := l.sender) c.pduId payload c.transport
    obtain ⟨e, c, n, -, he⟩ := transmitSecured_refused (D := D) hT
    unfold send
    rw [he] at hx ⊢
    exact .inr ⟨e, _, hx, rfl, rfl⟩
  · exact .inl ⟨T, send_eq T⟩

theorem report_eq {v : Int} (h : lastValid l.receiver.nvm c.pduId = .ok v) :
    l.report c.pduId = (.reported (.ok v), { l with reports := l.reports ++ [v] }) := by
  simp only [report, h]

theorem resync_cases (c : Channel) (l : Link) (i : Nat) :
    (∃ v ∈ l.reports, l.resync c.pduId i = (.resynced (reinitializeWindow l.sender.nvm c.pduId v).1,
      { l with sender :=
          { l.sender with nvm := (reinitializeWindow l.sender.nvm c.pduId v).2 } })) ∨
    l.resync c.pduId i = (.idle, l) := by
  unfold resync
  cases hi : l.reports[i]? with
  | none => exact .inr rfl
  | some v => exact .inl ⟨v, List.mem_of_getElem? hi, rfl⟩

theorem Serves.step (h : l.Serves c) (op : LinkOp) :
    (l.step D c.pduId c.transport op).2.Serves c := by
  obtain ⟨v, hv⟩ := h.counted
  obtain ⟨w, hw⟩ := h.accepted
  cases op with
  | send payload =>
    change (l.send D c.pduId c.transport payload).2.Serves c
    rcases send_cases D c l payload with ⟨T, he⟩ | ⟨e, sender, hx, hnvm, he⟩
    · rw [he]
      refine ⟨h.sender.of_extends T.extends_after, h.receiver, ⟨v, ?_⟩, ⟨w, hw⟩⟩
      rw [T.after_fields.2.1, hv]
    · rw [he]
      refine ⟨h.sender.of_extends hx, h.receiver, ⟨v, ?_⟩, ⟨w, hw⟩⟩
      rw [hnvm, hv]
  | deliver securedPdu =>
    have hx := receiveSecured_extends (D := D) (s := l.receiver) c.pduId securedPdu c.transport
    obtain ⟨w', hw', -⟩ := hx.counters c.pduId w hw
    exact ⟨h.sender, h.receiver.of_extends hx, ⟨v, hv⟩, ⟨w', hw'⟩⟩
  | report =>
    change (l.report c.pduId).2.Serves c
    rw [report_eq hw]
    exact ⟨h.sender, h.receiver, ⟨v, hv⟩, ⟨w, hw⟩⟩
  | resync i =>
    change (l.resync c.pduId i).2.Serves c
    rcases resync_cases c l i with ⟨u, -, he⟩ | he
    · rw [he]
      exact ⟨h.sender.reinitialized u, h.receiver, ⟨u, lastValid_commitFreshness _ _ _⟩, ⟨w, hw⟩⟩
    · rwa [he]

theorem Serves.run (h : l.Serves c) (ops : List LinkOp) : ((machineOf D c).exec l ops).Serves c :=
  Mealy.exec_preserves (fun _ op hs => hs.step op) h ops

theorem step_extends (l : Link) (op : LinkOp) :
    Extends l.receiver (l.step D c.pduId c.transport op).2.receiver := by
  cases op with
  | send payload =>
    change Extends l.receiver (l.send D c.pduId c.transport payload).2.receiver
    rcases send_cases D c l payload with ⟨T, he⟩ | ⟨e, sender, -, -, he⟩ <;>
    · rw [he]
      exact .refl _
  | deliver securedPdu => exact receiveSecured_extends _ _ _
  | report =>
    change Extends l.receiver (l.report c.pduId).2.receiver
    unfold report
    split <;> exact .refl _
  | resync i =>
    change Extends l.receiver (l.resync c.pduId i).2.receiver
    rcases resync_cases c l i with ⟨u, -, he⟩ | he <;>
    · rw [he]
      exact .refl _

/-- Nobody else makes MACs of the channel: protected bytes and MAC that verify were sent together
by the sender. -/
def Unforged (D : Digests) (c : Channel) (l : Link) : LinkOp → Prop
  | .deliver securedPdu => ∀ A : Acceptance D l.receiver c.pduId securedPdu c.transport,
      ∃ sent ∈ l.network, sent = region A.payload A.counter A.freshLen ++ A.mac
  | _ => True

def read (transport : Transport) : LinkEvent → List (CounterLink.Event Bytes)
  | .sent payload (.ok _) => [.sent (padded transport payload)]
  | .received (.ok (some payload)) => [.accepted payload]
  | .reported (.ok _) => [.reported]
  | .resynced (.ok _) => [.resynced]
  | _ => []

/-- The counter link that a link is, with counters above `floor` on the network. -/
structure Views (D : Digests) (c : Channel) (floor : Int) (l : Link) (x : CounterLink Bytes) :
    Prop where
  serves : l.Serves c
  sender : lastValid l.sender.nvm c.pduId = .ok x.sender
  receiver : lastValid l.receiver.nvm c.pduId = .ok x.receiver
  reports : l.reports = x.reported
  network : List.Forall₂ (fun frame m => frame = c.frame D m.2 m.1 ∧ floor < m.1) l.network x.sent
  floor_sender : floor ≤ x.sender
  floor_receiver : floor ≤ x.receiver
  floor_reports : ∀ v ∈ x.reported, floor ≤ v
  behind : x.Behind

def Recent (c : Channel) (floor : Int) (l : Link) : Prop :=
  ∀ v, lastValid l.receiver.nvm c.pduId = .ok v →
    v + c.windowSize ≤ floor + 2 ^ (c.freshLen * 8)

def Follows (D : Digests) (c : Channel) (floor : Int) (x : CounterLink Bytes)
    (next : LinkEvent × Link) : Prop :=
  ∃ js, (CounterLink.machine c.windowSize).outputs x js = read c.transport next.1 ∧
    Views D c floor next.2 ((CounterLink.machine c.windowSize).exec x js)

theorem Views.send (h : Views D c floor l x) (payload : Bytes) :
    Follows D c floor x (l.send D c.pduId c.transport payload) := by
  have hserves : (l.send D c.pduId c.transport payload).2.Serves c :=
    h.serves.step (D := D) (.send payload)
  rcases send_cases D c l payload with ⟨T, he⟩ | ⟨e, sender, -, hnvm, he⟩
  · rw [he] at hserves ⊢
    have hlast : T.lastValid = x.sender := lastValid_inj T.counted h.sender
    refine ⟨[.send (padded c.transport payload)], rfl, hserves, ?_, h.receiver, h.reports, ?_,
      h.floor_sender, h.floor_receiver, h.floor_reports, h.behind.send _⟩
    · rw [T.after_fields.2.1]
      exact h.sender
    · refine List.rel_append h.network (.cons ⟨?_, Int.lt_add_one_of_le h.floor_sender⟩ .nil)
      rw [h.serves.sender.frame_eq T, hlast]
  · rw [he] at hserves ⊢
    refine ⟨[], rfl, hserves, ?_, h.receiver, h.reports, h.network, h.floor_sender,
      h.floor_receiver, h.floor_reports, h.behind⟩
    rw [hnvm]
    exact h.sender

theorem Views.report (h : Views D c floor l x) : Follows D c floor x (l.report c.pduId) := by
  have hserves : (l.report c.pduId).2.Serves c := h.serves.step (D := D) .report
  rw [report_eq h.receiver] at hserves ⊢
  refine ⟨[.report], rfl, hserves, h.sender, h.receiver, ?_, h.network, h.floor_sender,
    h.floor_receiver, fun v hv => ?_, h.behind.report⟩
  · rw [h.reports]
    rfl
  · rcases List.mem_append.mp hv with hv | hv
    · exact h.floor_reports v hv
    · rw [List.mem_singleton.mp hv]
      exact h.floor_receiver

theorem Views.resync (h : Views D c floor l x) (i : Nat) :
    Follows D c floor x (l.resync c.pduId i) := by
  have hserves : (l.resync c.pduId i).2.Serves c := h.serves.step (D := D) (.resync i)
  rcases resync_cases c l i with ⟨v, hv, he⟩ | he
  · have hok : (reinitializeWindow l.sender.nvm c.pduId v).1 = .ok () :=
      commitFreshness_ok h.serves.sender.disk c.pduId v
    rw [h.reports] at hv
    obtain ⟨j, hj⟩ := List.getElem?_of_mem hv
    have hstep : (CounterLink.machine c.windowSize).step x (.resync j) =
        (.resynced, { x with sender := v }) := by
      change x.resync j = _
      rw [CounterLink.resync, hj]
    rw [he, hok] at hserves ⊢
    refine ⟨[.resync j], ?_, ?_⟩
    · rw [Mealy.outputs, hstep]
      rfl
    · rw [Mealy.exec_cons, hstep]
      exact ⟨hserves, lastValid_commitFreshness _ _ _, h.receiver, h.reports, h.network,
        h.floor_reports v hv, h.floor_receiver, h.floor_reports, h.behind.resync hv⟩
  · rw [he] at hserves ⊢
    exact ⟨[], rfl, h⟩

theorem exists_getElem?_of_forall₂ {α β : Type*} {R : α → β → Prop} {as : List α} {bs : List β}
    (h : List.Forall₂ R as bs) {a : α} (ha : a ∈ as) :
    ∃ (i : Nat) (b : β), bs[i]? = some b ∧ R a b := by
  induction h with
  | nil => cases ha
  | cons hab _ ih =>
    rcases List.mem_cons.mp ha with rfl | ha
    · exact ⟨0, _, rfl, hab⟩
    · obtain ⟨i, b, hi, hb⟩ := ih ha
      exact ⟨i + 1, b, hi, hb⟩

theorem Views.deliver (h : Views D c floor l x) (hrecent : l.Recent c floor) {securedPdu : Bytes}
    (hu : l.Unforged D c (.deliver securedPdu)) :
    Follows D c floor x (l.deliver D c.pduId c.transport securedPdu) := by
  have hserves : (l.deliver D c.pduId c.transport securedPdu).2.Serves c :=
    h.serves.step (D := D) (.deliver securedPdu)
  have hR := h.serves.receiver
  unfold Link.deliver at hserves ⊢
  rcases isEmpty_or_nonempty (Acceptance D l.receiver c.pduId securedPdu c.transport) with
    hA | ⟨⟨A⟩⟩
  · obtain ⟨R, -, -, hm, -⟩ := hR.ready
    obtain ⟨hnone, hnvm⟩ := R.rejects (by omega) h.receiver hA
    refine ⟨[], ?_, hserves, h.sender, ?_, h.reports, h.network, h.floor_sender, h.floor_receiver,
      h.floor_reports, h.behind⟩
    · rw [hnone]
      rfl
    · rw [hnvm]
      exact h.receiver
  · obtain ⟨sent, hmem, hsent⟩ := hu A
    rw [hR.verified_eq A] at hsent
    obtain ⟨i, ⟨v, a⟩, hi, hframe, hfloor⟩ := exists_getElem?_of_forall₂ h.network hmem
    obtain ⟨ha, hcong⟩ := Channel.frame_inj (hframe.symm.trans hsent)
    obtain ⟨L, hL, -, hlt, hle⟩ := A.counter_gt
    obtain rfl : L = x.receiver := lastValid_inj hL h.receiver
    rw [hR.window] at hle
    have hnear := hrecent _ h.receiver
    have hv : v ≤ x.receiver + 1 := h.behind.sent (v, a) (List.mem_of_getElem? hi)
    have hw := c.window_pos
    have hf := h.floor_receiver
    -- Both counters lie within one modulus above the floor.
    have hcounter : v = A.counter :=
      Residue.eq_of_modEq hcong hfloor (by linarith) (by linarith) (by linarith)
    have hstep : (CounterLink.machine c.windowSize).step x (.deliver i) =
        (.accepted a, { x with receiver := v }) := by
      change x.deliver c.windowSize i = _
      rw [CounterLink.deliver, hi]
      exact if_pos ⟨hcounter ▸ hlt, hcounter ▸ hle⟩
    have hlast : lastValid (l.receiver.receiveSecured D c.pduId securedPdu c.transport).2.nvm
        c.pduId = .ok v := hcounter ▸ A.lastValid_after
    refine ⟨[.deliver i], ?_, ?_⟩
    · rw [Mealy.outputs, hstep, A.accepted hR.disk, ← ha]
      rfl
    · rw [Mealy.exec_cons, hstep]
      exact ⟨hserves, h.sender, hlast, h.reports, h.network, h.floor_sender,
        (hfloor.le.trans le_rfl), h.floor_reports, (h.behind.accept hi (hcounter ▸ hlt)).2.1⟩

/-- A link's runs are runs of the counter link it views, as long as no MAC is forged and counter
fields stay unambiguous. -/
theorem Views.run (h : Views D c floor l x) {ops : List LinkOp}
    (hu : (machineOf D c).Meets (Unforged D c) l ops)
    (hrecent : (machineOf D c).Meets (fun l _ => l.Recent c floor) l ops) :
    ∃ js, (CounterLink.machine c.windowSize).outputs x js =
        ((machineOf D c).outputs l ops).flatMap (read c.transport) ∧
      Views D c floor ((machineOf D c).exec l ops)
        ((CounterLink.machine c.windowSize).exec x js) := by
  apply Mealy.refines (R := Views D c floor) _ h (hu.and hrecent)
  rintro l x op h ⟨hu, hrecent⟩
  cases op with
  | send payload => exact h.send payload
  | deliver securedPdu => exact h.deliver hrecent hu
  | report => exact h.report
  | resync i => exact h.resync i

theorem sentOf_eq (t : Transport) (es : List LinkEvent) :
    sentOf t es = CounterLink.sentOf (es.flatMap (read t)) := by
  rw [sentOf, CounterLink.sentOf, List.filterMap_flatMap, List.filterMap_eq_flatMap_toList]
  congr 1
  funext e
  rcases e with ⟨_, _ | _⟩ | ⟨_ | _ | _⟩ | ⟨_ | _⟩ | ⟨_ | _⟩ | _ <;> rfl

theorem acceptedOf_eq (t : Transport) (es : List LinkEvent) :
    acceptedOf es = CounterLink.acceptedOf (es.flatMap (read t)) := by
  rw [acceptedOf, CounterLink.acceptedOf, List.filterMap_flatMap, List.filterMap_eq_flatMap_toList]
  congr 1
  funext e
  rcases e with ⟨_, _ | _⟩ | ⟨_ | _ | _⟩ | ⟨_ | _⟩ | ⟨_ | _⟩ | _ <;> rfl

theorem resyncsOf_eq (t : Transport) (es : List LinkEvent) :
    resyncsOf es = CounterLink.resyncsOf (es.flatMap (read t)) := by
  induction es with
  | nil => rfl
  | cons e es ih =>
    rw [List.flatMap_cons, CounterLink.resyncsOf, List.countP_append, resyncsOf, List.countP_cons]
    rw [resyncsOf, CounterLink.resyncsOf] at ih
    rw [ih, Nat.add_comm]
    congr 1
    rcases e with ⟨_, _ | _⟩ | ⟨_ | _ | _⟩ | ⟨_ | _⟩ | ⟨_ | _⟩ | _ <;> rfl

/-- Both ends serve the channel and are at one counter, with nothing on the way. -/
structure InStep (c : Channel) (counter : Int) (l : Link) : Prop where
  sender : c.Serves l.sender
  receiver : c.Serves l.receiver
  counted : lastValid l.sender.nvm c.pduId = .ok counter
  accepted : lastValid l.receiver.nvm c.pduId = .ok counter
  network : l.network = []
  reports : l.reports = []

theorem InStep.serves {counter : Int} (h : l.InStep c counter) : l.Serves c :=
  ⟨h.sender, h.receiver, ⟨counter, h.counted⟩, ⟨counter, h.accepted⟩⟩

theorem InStep.views {counter : Int} (h : l.InStep c counter) :
    Views D c counter l { sender := counter, receiver := counter, sent := [], reported := [] } where
  serves := h.serves
  sender := h.counted
  receiver := h.accepted
  reports := h.reports
  network := by
    rw [h.network]
    exact .nil
  floor_sender := le_rfl
  floor_receiver := le_rfl
  floor_reports := List.forall_mem_nil _
  behind := ⟨le_rfl, List.forall_mem_nil _, List.forall_mem_nil _⟩

theorem recent_of_last {last : Int} {ops : List LinkOp}
    (hlast : lastValid ((machineOf D c).exec l ops).receiver.nvm c.pduId = .ok last)
    (hle : last + c.windowSize ≤ floor + 2 ^ (c.freshLen * 8)) :
    (machineOf D c).Meets (fun l _ => l.Recent c floor) l ops := by
  -- where the receiver ends within a modulus of where it began, it was there all along
  apply Mealy.meets_of_rel (R := fun l l' : Link => Extends l.receiver l'.receiver)
  · exact fun l => .refl l.receiver
  · exact fun h h' => h.trans h'
  · exact step_extends
  · intro l' _ hx v hv
    obtain ⟨v', hv', hvle⟩ := hx.counters c.pduId v hv
    rw [lastValid_inj hv' hlast] at hvle
    linarith

theorem Views.accepted_sublist (h : Views D c floor l x) {k : Nat} (hk : x.OpenFrom k)
    {ops : List LinkOp} (hu : (machineOf D c).Meets (Unforged D c) l ops)
    (hrecent : (machineOf D c).Meets (fun l _ => l.Recent c floor) l ops) :
    (acceptedOf ((machineOf D c).outputs l ops)).Sublist
      ((x.sent.drop k).map Prod.snd ++ sentOf c.transport ((machineOf D c).outputs l ops)) := by
  obtain ⟨js, ho, -⟩ := h.run hu hrecent
  rw [sentOf_eq, acceptedOf_eq c.transport, ← ho]
  exact CounterLink.accepted_sublist h.behind hk js

/-- Without a resynchronisation one frame is accepted and no more: each resynchronisation buys
the acceptance of at most one frame, however many are sent. -/
theorem accepted_le_resyncs (D : Digests) (c : Channel) {l : Link} {counter last : Int}
    (h : l.InStep c counter) (ops : List LinkOp)
    (hu : (machineOf D c).Meets (Unforged D c) l ops)
    (hlast : lastValid ((machineOf D c).exec l ops).receiver.nvm c.pduId = .ok last)
    (hle : last + c.windowSize ≤ counter + 2 ^ (c.freshLen * 8)) :
    (acceptedOf ((machineOf D c).outputs l ops)).length ≤
      resyncsOf ((machineOf D c).outputs l ops) + 1 := by
  have hviews := h.views (D := D)
  obtain ⟨js, ho, -⟩ := hviews.run hu (recent_of_last hlast hle)
  rw [resyncsOf_eq c.transport, acceptedOf_eq c.transport, ← ho]
  exact (CounterLink.accepted_length_le hviews.behind js).1

/-! Two shipped stacks, provisioned with the same keys. -/

def shippedChannel (urandom : Nat → Bytes) : Channel where
  pduId := "PDU_0x100"
  transport := .canFd
  key := urandom 1
  freshLen := 2
  macLen := 8
  windowSize := 16
  macLen_pos := Nat.succ_pos 7
  macLen_le := Nat.le_of_ble_eq_true rfl
  window_pos := Int.ofNat_le.mpr (Nat.le_of_ble_eq_true rfl)
  window_le := Int.ofNat_le.mpr (Nat.le_of_ble_eq_true rfl)

def shippedLink (urandom : Nat → Bytes) : Link :=
  { sender := shipped urandom, receiver := shipped urandom, network := [], reports := [] }

theorem shippedChannel_serves (urandom : Nat → Bytes) :
    (shippedChannel urandom).Serves (shipped urandom) where
  ready := ⟨shippedReady urandom .canFd, rfl, rfl, rfl, rfl⟩
  disk := rfl
  freshness := rfl

theorem shippedLink_inStep (urandom : Nat → Bytes) :
    (shippedLink urandom).InStep (shippedChannel urandom) 0 where
  sender := shippedChannel_serves urandom
  receiver := shippedChannel_serves urandom
  counted := shipped_counted urandom
  accepted := shipped_counted urandom
  network := rfl
  reports := rfl

theorem unforged_of_mem (h : c.Serves l.receiver) {securedPdu : Bytes}
    (hs : securedPdu ∈ l.network) : l.Unforged D c (.deliver securedPdu) :=
  fun A => ⟨securedPdu, hs, h.accepted_eq A⟩

theorem shippedLink_first (D : Digests) (urandom : Nat → Bytes) (a : Bytes) : ∃ securedPdu,
    (machineOf D (shippedChannel urandom)).Meets (Unforged D (shippedChannel urandom))
      (shippedLink urandom) [.send a, .deliver securedPdu] ∧
    lastValid ((machineOf D (shippedChannel urandom)).exec (shippedLink urandom)
      [.send a, .deliver securedPdu]).receiver.nvm "PDU_0x100" = .ok 1 := by
  have hserves := shippedChannel_serves urandom
  obtain ⟨T, hT⟩ : ∃ T : Transmission (shippedLink urandom).sender (shippedChannel urandom).pduId a
      (shippedChannel urandom).transport, T.lastValid = 0 :=
    ⟨shippedTransmission urandom a .canFd nofun, rfl⟩
  have hframe : T.frame D = (shippedChannel urandom).frame D a 1 := by
    have h := hserves.frame_eq (D := D) T
    rwa [hT] at h
  have hwindow : (1 : Int) ≤ 0 + (shippedChannel urandom).windowSize :=
    show (1 : Int) ≤ 0 + 16 by decide
  obtain ⟨-, hlast⟩ := hserves.receive (D := D) (v := 1) (shipped_counted urandom) Int.zero_lt_one
    hwindow (nofun : _ → a.length = 4)
  refine ⟨T.frame D, ⟨trivial, ?_, trivial⟩, ?_⟩
  · rw [send_eq T]
    exact unforged_of_mem hserves (List.mem_singleton_self _)
  · rw [Mealy.exec_cons, send_eq T, hframe]
    exact hlast

theorem accepted_le_resyncs_shipped : ∃ securedPdu,
    (acceptedOf ((machineOf .standard (shippedChannel (toBytesBE 32))).outputs
      (shippedLink (toBytesBE 32)) [.send [7], .deliver securedPdu])).length ≤
    resyncsOf ((machineOf .standard (shippedChannel (toBytesBE 32))).outputs
      (shippedLink (toBytesBE 32)) [.send [7], .deliver securedPdu]) + 1 := by
  obtain ⟨securedPdu, hu, hlast⟩ := shippedLink_first .standard (toBytesBE 32) [7]
  exact ⟨securedPdu, accepted_le_resyncs .standard _ (shippedLink_inStep _) _ hu hlast (by decide)⟩

/-! Stop and wait: before each frame the sender takes over a fresh report. -/

/-- The operations that send the payloads one by one, each after a resynchronisation. -/
def stopAndWait (D : Digests) (c : Channel) : List Bytes → Link → List LinkOp
  | [], _ => []
  | a :: rest, l =>
    let resynced := (machineOf D c).exec l [.report, .resync l.reports.length]
    match (resynced.sender.transmitSecured D c.pduId a c.transport).1 with
    | .error _ => []
    | .ok securedPdu =>
      let ops := [.report, .resync l.reports.length, .send a, .deliver securedPdu]
      ops ++ stopAndWait D c rest ((machineOf D c).exec l ops)

theorem Serves.round (h : l.Serves c) {a : Bytes}
    (ha : c.transport = .classicCan → a.length ≤ classicCanPayloadBytes) :
    ∃ securedPdu,
      (((machineOf D c).exec l [.report, .resync l.reports.length]).sender.transmitSecured D
        c.pduId a c.transport).1 = .ok securedPdu ∧
      acceptedOf ((machineOf D c).outputs l
        [.report, .resync l.reports.length, .send a, .deliver securedPdu]) =
          [padded c.transport a] := by
  -- one round delivers its payload, whatever the counters were before
  obtain ⟨w, hw⟩ := h.accepted
  have hreport : (machineOf D c).step l .report =
      (.reported (.ok w), { l with reports := l.reports ++ [w] }) := report_eq hw
  have hnewest : (l.reports ++ [w])[l.reports.length]? = some w := by simp
  let l₁ : Link := { l with
    reports := l.reports ++ [w]
    sender := { l.sender with nvm := (reinitializeWindow l.sender.nvm c.pduId w).2 } }
  have hresync : (machineOf D c).step { l with reports := l.reports ++ [w] }
      (.resync l.reports.length) = (.resynced (.ok ()), l₁) := by
    have hok : (reinitializeWindow l.sender.nvm c.pduId w).1 = .ok () :=
      commitFreshness_ok h.sender.disk c.pduId w
    change resync c.pduId _ _ = _
    rw [← hok]
    simp only [resync, hnewest, l₁]
  have hserves : c.Serves l₁.sender := h.sender.reinitialized w
  obtain ⟨R, -⟩ := hserves.ready
  let T : Transmission l₁.sender c.pduId a c.transport :=
    ⟨R, ha, w, lastValid_commitFreshness _ _ _⟩
  have hframe : T.frame D = c.frame D (padded c.transport a) (w + 1) := hserves.frame_eq T
  obtain ⟨hok, -⟩ := h.receiver.receive (D := D) hw (Int.lt_succ w)
    (Int.add_le_add_left c.window_pos w) (padded_length ha)
  rw [← hframe] at hok
  refine ⟨T.frame D, ?_, ?_⟩
  · rw [Mealy.exec_cons, Mealy.exec_cons, Mealy.exec_nil, hreport, hresync, T.transmitSecured_eq]
  · simp only [Mealy.outputs, hreport, hresync, send_eq T]
    change acceptedOf [_, _, _, .received (l.receiver.receiveSecured D c.pduId (T.frame D)
      c.transport).1] = _
    rw [hok]
    rfl

theorem Serves.stopAndWait (h : l.Serves c) (payloads : List Bytes)
    (ha : c.transport = .classicCan → ∀ a ∈ payloads, a.length ≤ classicCanPayloadBytes) :
    acceptedOf ((machineOf D c).outputs l (Link.stopAndWait D c payloads l)) =
      payloads.map (padded c.transport) := by
  induction payloads generalizing l with
  | nil => rfl
  | cons a rest ih =>
    obtain ⟨securedPdu, hsent, hround⟩ :=
      h.round (D := D) fun ht => ha ht a List.mem_cons_self
    have hnext := h.run (D := D) [.report, .resync l.reports.length, .send a, .deliver securedPdu]
    have hrest := ih hnext fun ht b hb => ha ht b (List.mem_cons_of_mem a hb)
    simp only [Link.stopAndWait, hsent, Mealy.outputs_append]
    rw [acceptedOf, List.filterMap_append, ← acceptedOf, ← acceptedOf, hround, hrest]
    rfl

end Link
end SecOC
