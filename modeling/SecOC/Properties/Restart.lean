import SecOC.Sim.NvMFile

/-! What an NvM holds after its file is opened again. The store comes back as it was exactly when
no dictionary in it, the store included, has the byte marker as its only key. -/

namespace SecOC.NvMFile
open Py

def lastWrittenStep (key : String) (last : Option Value) : NvMCall → Option Value
  | .write k value => if key = k then some value else last
  | .incrementCounter k =>
    if key = k then
      match asInt (last.getD (.int 0)) with
      | .ok current => some (.int (current + 1))
      | .error _ => last
    else last
  | .resetToDefaults => none

def lastWritten (calls : List (NvMCall × Bool)) (key : String) : Option Value :=
  calls.foldl (fun last call => lastWrittenStep key last call.1) none

def Succeeds (m : NvMFile) (call : NvMCall × Bool) : Prop := (machine.step m call).1.isOk

def Mirrored (m : NvMFile) (kvs : List (String × Value)) : Prop :=
  m.store = .dict kvs ∧ (kvs.map Prod.fst).Nodup ∧
    ((m.file = none ∧ kvs = []) ∨
      (m.file = some (.text (encode m.store)) ∧
        Json.dumps (encode m.store) = .ok (encode m.store)))

theorem mirrored_new : Mirrored new [] := ⟨rfl, List.nodup_nil, Or.inl ⟨rfl, rfl⟩⟩

variable {m : NvMFile} {kvs : List (String × Value)}

theorem flush_ok {diskFault : Bool} (h : (m.flush diskFault).1.isOk) :
    Json.dumps (encode m.store) = .ok (encode m.store) ∧
      (m.flush diskFault).2 = { m with file := some (.text (encode m.store)) } := by
  unfold flush at h ⊢
  split at h
  · cases h
  · next j hj =>
    obtain ⟨rfl, -⟩ := Json.loads_of_dumps hj
    rw [hj]
    cases diskFault with
    | true => cases h
    | false => exact ⟨rfl, rfl⟩

theorem mirrored_flush {diskFault : Bool} (hstore : m.store = .dict kvs)
    (hnodup : (kvs.map Prod.fst).Nodup) (h : (m.flush diskFault).1.isOk) :
    Mirrored (m.flush diskFault).2 kvs := by
  obtain ⟨hdumps, he⟩ := flush_ok h
  rw [he]
  exact ⟨hstore, hnodup, Or.inr ⟨rfl, hdumps⟩⟩

theorem mirrored_write {key : String} {value : Value} {diskFault : Bool} (hm : Mirrored m kvs)
    (h : (m.write key value diskFault).1.isOk) :
    Mirrored (m.write key value diskFault).2 (Dict.setItem key value kvs) := by
  unfold write at h ⊢
  rw [hm.1] at h ⊢
  exact mirrored_flush rfl (Dict.nodup_setItem key value kvs hm.2.1) h

theorem incrementCounter_ok {key : String} {diskFault : Bool} (hm : Mirrored m kvs)
    (h : (m.incrementCounter key diskFault).1.isOk) :
    ∃ current, asInt ((kvs.lookup key).getD (.int 0)) = .ok current ∧
      (m.write key (.int (current + 1)) diskFault).1.isOk ∧
      (m.incrementCounter key diskFault).2 = (m.write key (.int (current + 1)) diskFault).2 := by
  have hget : get m.store key (.int 0) >>= asInt = asInt ((kvs.lookup key).getD (.int 0)) := by
    rw [hm.1]
    rfl
  cases hcur : asInt ((kvs.lookup key).getD (.int 0)) with
  | error e =>
    rw [incrementCounter, hget, hcur] at h
    cases h
  | ok current =>
    by_cases hlimit : current ≥ 2 ^ 63 - 1
    · simp only [incrementCounter, hget, hcur, if_pos hlimit] at h
      cases h
    · rw [incrementCounter_of (hget.trans hcur) hlimit] at h ⊢
      exact ⟨current, rfl, (isOk_map _ _).symm.trans h, rfl⟩

theorem mirrored_step (hm : Mirrored m kvs) {call : NvMCall × Bool} (h : Succeeds m call) :
    ∃ kvs', Mirrored (machine.step m call).2 kvs' ∧
      ∀ key, kvs'.lookup key = lastWrittenStep key (kvs.lookup key) call.1 := by
  obtain ⟨call, diskFault⟩ := call
  cases call with
  | write k value =>
    have hok : (m.write k value diskFault).1.isOk := (isOk_map _ _).symm.trans h
    exact ⟨_, mirrored_write hm hok, fun key => Dict.lookup_setItem k value kvs key⟩
  | incrementCounter k =>
    have hok : (m.incrementCounter k diskFault).1.isOk := (isOk_map _ _).symm.trans h
    obtain ⟨current, hcur, hwrite, he⟩ := incrementCounter_ok hm hok
    refine ⟨Dict.setItem k (.int (current + 1)) kvs, ?_, ?_⟩
    · change Mirrored (m.incrementCounter k diskFault).2 _
      rw [he]
      exact mirrored_write hm hwrite
    · intro key
      rw [Dict.lookup_setItem, lastWrittenStep]
      split
      · next hk =>
        subst hk
        rw [hcur]
      · rfl
  | resetToDefaults =>
    have hok : (m.resetToDefaults diskFault).1.isOk := (isOk_map _ _).symm.trans h
    have hm' : Mirrored (m.resetToDefaults diskFault).2 [] := mirrored_flush rfl List.nodup_nil hok
    exact ⟨[], hm', fun _ => rfl⟩

theorem mirrored_exec (hm : Mirrored m kvs) {calls : List (NvMCall × Bool)}
    (h : machine.Meets Succeeds m calls) :
    ∃ kvs', Mirrored (machine.exec m calls) kvs' ∧ ∀ key, kvs'.lookup key =
      calls.foldl (fun last call => lastWrittenStep key last call.1) (kvs.lookup key) := by
  induction calls generalizing m kvs with
  | nil => exact ⟨kvs, hm, fun _ => rfl⟩
  | cons call calls ih =>
    obtain ⟨kvs₁, hm₁, hlookup₁⟩ := mirrored_step hm h.1
    obtain ⟨kvs', hm', hlookup'⟩ := ih hm₁ h.2
    refine ⟨kvs', hm', ?_⟩
    intro key
    rw [hlookup' key, hlookup₁ key]
    rfl

theorem load_eq_ok (hm : Mirrored m kvs) {m' : NvMFile} :
    load m.file = .ok m' ↔ decode (encode m.store) = .ok m'.store ∧ m'.file = m.file := by
  obtain ⟨hstore, -, ⟨hfile, rfl⟩ | ⟨hfile, hdumps⟩⟩ := hm
  · have hempty : decode (encode (.dict [])) = .ok (.dict []) := rfl
    rw [hstore, hfile, hempty]
    constructor
    · intro h
      cases h
      exact ⟨rfl, rfl⟩
    · rintro ⟨hdict, hnone⟩
      obtain ⟨store, file⟩ := m'
      cases hdict
      cases hnone
      rfl
  · obtain ⟨-, hloads⟩ := Json.loads_of_dumps hdumps
    rw [hfile]
    simp only [load, hloads]
    constructor
    · intro h
      obtain ⟨j, hj, h⟩ := bind_eq_ok.mp h
      obtain ⟨store, hdecode, he⟩ := bind_eq_ok.mp h
      cases hj
      cases he
      exact ⟨hdecode, rfl⟩
    · rintro ⟨hdecode, hsome⟩
      obtain ⟨store, file⟩ := m'
      cases hsome
      exact bind_eq_ok.mpr ⟨_, rfl, bind_eq_ok.mpr ⟨store, hdecode, rfl⟩⟩

theorem keys_of_decode {kvs' : List (String × Value)}
    (h : decode (encode (.dict kvs)) = .ok (.dict kvs')) :
    kvs'.map Prod.fst = kvs.map Prod.fst := by
  rw [encode, decode] at h
  split at h
  · exact absurd h (bytesFromHex_ne_dict _ _)
  · obtain ⟨items, hitems, he⟩ := bind_eq_ok.mp h
    cases he
    exact (map_fst_of_decodeItems hitems).trans (map_fst_encodeItems kvs)

theorem eq_of_getD_eq {x y : Option Value} (h : ∀ default, x.getD default = y.getD default) :
    x = y := by
  cases x with
  | none =>
    cases y with
    | none => rfl
    | some v =>
      have htrue := h (.bool true)
      have hnone := h .none
      rw [Option.getD_none, Option.getD_some] at htrue hnone
      cases htrue.trans hnone.symm
  | some v =>
    cases y with
    | none =>
      have htrue := h (.bool true)
      have hnone := h .none
      rw [Option.getD_none, Option.getD_some] at htrue hnone
      cases htrue.symm.trans hnone
    | some w => exact congrArg some (h .none)

theorem reads_iff_decode (hm : Mirrored m kvs) :
    (∃ m', load m.file = .ok m' ∧
      ∀ key default, m'.read key default = .ok ((kvs.lookup key).getD default)) ↔
    decode (encode m.store) = .ok m.store := by
  constructor
  · rintro ⟨m', hload, hreads⟩
    obtain ⟨hdecode, -⟩ := (load_eq_ok hm).mp hload
    cases hs : m'.store with
    | dict kvs' =>
      rw [hs, hm.1] at hdecode
      have hlookup : ∀ key, kvs'.lookup key = kvs.lookup key := by
        intro key
        apply eq_of_getD_eq
        intro default
        have hread := hreads key default
        rw [read, hs] at hread
        exact Except.ok.inj hread
      obtain rfl := Dict.items_ext (keys_of_decode hdecode) hm.2.1 hlookup
      rw [hm.1]
      exact hdecode
    | _ =>
      have hread := hreads "" .none
      rw [read, hs] at hread
      cases hread
  · intro hdecode
    refine ⟨m, (load_eq_ok hm).mpr ⟨hdecode, rfl⟩, ?_⟩
    intro key default
    rw [read, hm.1]
    rfl

theorem dumps_loads (hm : Mirrored m kvs) :
    Json.dumps (encode m.store) >>= Json.loads = .ok (encode m.store) := by
  obtain ⟨hstore, -, ⟨-, rfl⟩ | ⟨-, hdumps⟩⟩ := hm
  · rw [hstore]
    rfl
  · rw [hdumps]
    exact (Json.loads_of_dumps hdumps).2

/-- After any calls that all succeed, opening the file again raises nothing and gives under every
key what was last written there, exactly if no dictionary of the store, the store included, has
the byte marker as its only key. -/
theorem survives_restart_iff (calls : List (NvMCall × Bool))
    (hok : machine.Meets Succeeds new calls) :
    ((∃ m', load (machine.exec new calls).file = .ok m' ∧
        ∀ key default, m'.read key default = .ok ((lastWritten calls key).getD default)) ↔
      markerFree (machine.exec new calls).store = true) ∧
    (((Json.dumps (encode (machine.exec new calls).store) >>= Json.loads) >>= decode) =
        .ok (machine.exec new calls).store ↔
      markerFree (machine.exec new calls).store = true) := by
  obtain ⟨kvs, hm, hlookup⟩ := mirrored_exec mirrored_new hok
  constructor
  · rw [← decode_encode_iff, ← reads_iff_decode hm]
    simp only [hlookup]
    rfl
  · rw [← decode_encode_iff, dumps_loads hm]
    rfl

theorem survives_restart_nested :
    let calls := [(NvMCall.write "key_meta_PDU_0x100" (.dict [("key_id", .str "k"),
      ("history", .list [.bytes [0, 255], .none, .bool true])]), false),
      (.incrementCounter "boot", false)]
    ∃ m', load (machine.exec new calls).file = .ok m' ∧
      ∀ key default, m'.read key default = .ok ((lastWritten calls key).getD default) := by
  -- nested values, bytes and counters come back after a restart
  apply (survives_restart_iff _ _).1.mpr
  · decide +kernel
  · refine ⟨?_, ?_, trivial⟩ <;> (unfold Succeeds; decide +kernel)

theorem marker_key_lost :
    let calls := [(NvMCall.write "__bytes_hex__" (.int 5), false)]
    machine.Meets Succeeds new calls ∧
      (load (machine.exec new calls).file).map (fun _ => ()) = .error .typeError ∧
      ¬∃ m', load (machine.exec new calls).file = .ok m' ∧
        ∀ key default, m'.read key default = .ok ((lastWritten calls key).getD default) := by
  -- a store whose only key is the marker cannot be opened again
  intro calls
  have hraise : (load (machine.exec new calls).file).map (fun _ => ()) = .error .typeError := by
    decide +kernel
  refine ⟨⟨?_, trivial⟩, hraise, ?_⟩
  · unfold Succeeds
    decide +kernel
  · rintro ⟨m', hload, -⟩
    rw [hload] at hraise
    cases hraise

end SecOC.NvMFile
