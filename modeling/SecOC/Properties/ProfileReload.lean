import SecOC.Sim.ProfileFile

/-! What `reload` accepts, entry by entry, and what it leaves when it fails. -/

namespace SecOC.ProfileFile
open Py

structure IntegerLengths (entry : JsonValue) : Prop where
  object : entry.isDict = true
  tfv : (entry.field "tfv_length").isNull = true ∨ ∃ i, entry.field "tfv_length" = .int i
  tmac : (entry.field "tmac_length").isNull = true ∨ ∃ i, entry.field "tmac_length" = .int i

structure InGrammar (entry : JsonValue) : Prop where
  mandatory : ∀ name ∈ mandatoryFields, name ∈ entry.names
  allowed : ∀ name ∈ entry.names, name ∈ allowedFields
  algorithm : ∃ s ∈ Config.supportedAlgorithms, entry.field "algorithm" = .str s
  lengths : ((entry.field "tfv_length").isNull = true ∧ (entry.field "tmac_length").isNull = true) ∨
    ∃ tfv tmac : Int, entry.field "tfv_length" = .int tfv ∧ entry.field "tmac_length" = .int tmac ∧
      tfv + tmac = 4

theorem isSupportedAlgorithm_iff {v : JsonValue} :
    v.isSupportedAlgorithm = true ↔ ∃ s ∈ Config.supportedAlgorithms, v = .str s := by
  cases v with
  | str s => simp [JsonValue.isSupportedAlgorithm]
  | _ => simp [JsonValue.isSupportedAlgorithm]

theorem IntegerLengths.lengths_iff {entry : JsonValue} (h : IntegerLengths entry) :
    ((entry.field "tfv_length").isNull = false ∧ (entry.field "tmac_length").isNull = false ∧
      (entry.field "tfv_length").sumNe (entry.field "tmac_length") classicCanTruncBudgetBytes =
        .ok false) ↔
    ∃ tfv tmac : Int, entry.field "tfv_length" = .int tfv ∧ entry.field "tmac_length" = .int tmac ∧
      tfv + tmac = 4 := by
  constructor
  · rintro ⟨htfv, htmac, hsum⟩
    obtain ⟨a, ha⟩ := h.tfv.resolve_left (by simp [htfv])
    obtain ⟨b, hb⟩ := h.tmac.resolve_left (by simp [htmac])
    rw [ha, hb] at hsum
    exact ⟨a, b, ha, hb, sumNe_int.mp hsum⟩
  · rintro ⟨a, b, ha, hb, hsum⟩
    rw [ha, hb]
    exact ⟨rfl, rfl, sumNe_int.mpr hsum⟩

theorem accepted_iff_inGrammar {entry : JsonValue} (h : IntegerLengths entry) :
    Accepted entry ↔ InGrammar entry := by
  constructor
  · intro ha
    refine ⟨ha.mandatory, ha.allowed, isSupportedAlgorithm_iff.mp ha.supported, ?_⟩
    exact ha.lengths.imp id h.lengths_iff.mp
  · intro hg
    refine ⟨h.object, hg.allowed, hg.mandatory, isSupportedAlgorithm_iff.mpr hg.algorithm, ?_⟩
    exact hg.lengths.imp id h.lengths_iff.mpr

variable {str : JsonValue → String} {m : ProfileFile}

theorem reload_ok :
    (m.reload str).1 = .ok () ↔ ∃ profiles, loadContents str m.config = .ok profiles := by
  unfold reload
  cases loadContents str m.config with
  | error e => simp
  | ok profiles => simp

theorem reload_of {profiles : Dict String Entry} (h : loadContents str m.config = .ok profiles) :
    m.reload str = (.ok (), { m with profiles }) := by
  rw [reload, h]

theorem loads_iff {raw : Dict String JsonValue} (h : m.config = .object raw) :
    (m.reload str).1 = .ok () ↔ ∀ e ∈ raw.items, Accepted e.2 := by
  rw [reload_ok, h]
  constructor
  · rintro ⟨profiles, hload⟩
    exact (loadContents_object.mp hload).1
  · intro hall
    have hnodup : ((raw.items.map fun e => (e.1, Entry.ofJson e.2)).map Prod.fst).Nodup := by
      rw [List.map_map]
      exact raw.nodup
    exact ⟨⟨_, hnodup⟩, loadContents_object.mpr ⟨hall, rfl⟩⟩

/-- **`reload` is exact and atomic.** A file of entries with integer lengths loads if and only if
every entry is in the grammar; a file that loads becomes the table, entry for entry; and one that
does not leaves everything as it was. -/
theorem reload_exact (str : JsonValue → String) (m : ProfileFile) :
    (∀ raw, m.config = .object raw → (∀ e ∈ raw.items, IntegerLengths e.2) →
      ((m.reload str).1 = .ok () ↔ ∀ e ∈ raw.items, InGrammar e.2)) ∧
    ((m.reload str).1 = .ok () → ∃ raw profiles, m.config = .object raw ∧
      profiles.items = (raw.items.map fun e => (e.1, Entry.ofJson e.2)) ∧
      (m.reload str).2 = { m with profiles }) ∧
    ∀ e, (m.reload str).1 = .error e → (m.reload str).2 = m := by
  refine ⟨fun raw hraw hint => ?_, fun hok => ?_, fun e he => ?_⟩
  · rw [loads_iff hraw]
    exact forall₂_congr fun e he => accepted_iff_inGrammar (hint e he)
  · obtain ⟨profiles, hload⟩ := reload_ok.mp hok
    cases hconfig : m.config with
    | object raw =>
      have hitems := (loadContents_object.mp (hconfig ▸ hload)).2
      exact ⟨raw, profiles, rfl, hitems, by rw [reload_of hload, ← hconfig]⟩
    | _ =>
      rw [hconfig] at hload
      cases hload
  · unfold reload at he ⊢
    cases hload : loadContents str m.config with
    | error e' => rfl
    | ok profiles =>
      rw [hload] at he
      cases he

theorem shippedFields_names (pduId : String) : (shippedFields pduId).names =
    ["algorithm", "key_id", "freshness_length", "authenticator_length", "profile_version",
      "tfv_length", "tmac_length"] := rfl

theorem shippedFields_inGrammar (pduId : String) : InGrammar (shippedFields pduId) where
  mandatory := by
    rw [shippedFields_names]
    decide
  allowed := by
    rw [shippedFields_names]
    decide
  algorithm := ⟨"HMAC-SHA256", by decide, rfl⟩
  lengths := Or.inr ⟨1, 3, rfl, rfl, by decide⟩

theorem shippedFields_integerLengths (pduId : String) : IntegerLengths (shippedFields pduId) :=
  ⟨rfl, Or.inr ⟨1, rfl⟩, Or.inr ⟨3, rfl⟩⟩

theorem reload_exact_shipped :
    let loaded : ProfileFile :=
      { profiles := Dict.ofItems [("PDU_0x300", Entry.ofJson (shippedFields "PDU_0x300"))]
        config := .object (Dict.ofItems [("PDU_0x100", shippedFields "PDU_0x100"),
          ("PDU_0x200", shippedFields "PDU_0x200")])
        tmp := none }
    let edited : ProfileFile :=
      { loaded with config := .object (Dict.ofItems [("PDU_0x100", shippedFields "PDU_0x100"),
          ("PDU_0x200", .dict [])]) }
    (loaded.reload fun _ => "").1 = .ok () ∧
      (loaded.reload fun _ => "").2.profiles.get? "PDU_0x300" = none ∧
      (edited.reload fun _ => "").1 ≠ .ok () ∧ (edited.reload fun _ => "").2 = edited := by
  -- the shipped entries load over what was there; an empty one after a good one does not
  intro loaded edited
  obtain ⟨hiff, hloads, -⟩ := reload_exact (fun _ => "") loaded
  obtain ⟨hiff', -, hkept⟩ := reload_exact (fun _ => "") edited
  have hok : (loaded.reload fun _ => "").1 = .ok () := by
    refine (hiff _ rfl ?_).mpr ?_
    · exact List.forall_mem_cons.mpr ⟨shippedFields_integerLengths _,
        List.forall_mem_singleton.mpr (shippedFields_integerLengths _)⟩
    · exact List.forall_mem_cons.mpr ⟨shippedFields_inGrammar _,
        List.forall_mem_singleton.mpr (shippedFields_inGrammar _)⟩
  have hfails : (edited.reload fun _ => "").1 ≠ .ok () := by
    rw [Ne, hiff' _ rfl (List.forall_mem_cons.mpr ⟨shippedFields_integerLengths _,
      List.forall_mem_singleton.mpr ⟨rfl, Or.inl rfl, Or.inl rfl⟩⟩)]
    intro hall
    have hempty := (hall ("PDU_0x200", .dict [])
      (List.mem_cons_of_mem _ (List.mem_singleton.mpr rfl))).mandatory "key_id" (by decide)
    cases hempty
  refine ⟨hok, ?_, hfails, ?_⟩
  · obtain ⟨raw, profiles, hraw, hitems, heq⟩ := hloads hok
    cases hraw
    rw [heq, Dict.get?, hitems]
    rfl
  · cases he : (edited.reload fun _ => "").1 with
    | error e => exact hkept e he
    | ok u => exact absurd he hfails

end SecOC.ProfileFile
