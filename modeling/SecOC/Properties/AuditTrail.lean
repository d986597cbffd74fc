import SecOC.Sim.AuditLog

/-! What the journal's own check says after any number of calls, and about a journal somebody has
edited. -/

namespace SecOC
open Py HashChain

namespace HashChainedLog
variable {τ δ : Type} (C : ChainHash τ δ)

section Collision

theorem append_quote_inj {a a' b b' : String} (hb : '"' ∉ b.toList) (hb' : '"' ∉ b'.toList)
    (h : a ++ "\"" ++ b = a' ++ "\"" ++ b') : a = a' ∧ b = b' := by
  have hlist : a.toList ++ '"' :: b.toList = a'.toList ++ '"' :: b'.toList := by
    simpa [String.toList_append] using congrArg String.toList h
  have hab : a.toList = a'.toList ∧ b.toList = b'.toList := by
    rcases List.append_eq_append_iff.mp hlist with ⟨t, ha, hq⟩ | ⟨t, ha, hq⟩
    · cases t with
      | nil => exact ⟨by simpa using ha.symm, by simpa using hq⟩
      | cons c t =>
        rw [(List.cons.inj hq).2] at hb
        exact absurd (by simp) hb
    · cases t with
      | nil => exact ⟨by simpa using ha, by simpa using hq.symm⟩
      | cons c t =>
        rw [(List.cons.inj hq).2] at hb'
        exact absurd (by simp) hb'
  exact ⟨String.toList_injective hab.1, String.toList_injective hab.2⟩

theorem quote_notMem_toHex (bs : Bytes) : '"' ∉ (toHex bs).toList := by
  rw [toHex, String.toList_ofList]
  induction bs with
  | nil => simp [hexChars]
  | cons b bs ih =>
    have hd : ∀ n < 16, hexDigit n ≠ '"' := by decide
    have hh := hd (b.toNat / 16) (by have := b.toNat_lt; omega)
    have hl := hd (b.toNat % 16) (by omega)
    simp [hexChars, ih, hh.symm, hl.symm]

theorem payload_inj {prev prev' text text' : String} (hp : '"' ∉ prev.toList)
    (hp' : '"' ∉ prev'.toList) (h : payload prev text = payload prev' text') :
    prev = prev' ∧ text = text' := by
  have hsplit : ∀ p t, payload p t =
      ("\x7b\"entry\": " ++ t ++ ", \"prev\": ") ++ "\"" ++ p ++ "\"\x7d" := by
    intro p t
    have hq : ", \"prev\": \"" = ", \"prev\": " ++ "\"" := by decide
    rw [payload, hq, ← String.append_assoc]
  rw [hsplit, hsplit, String.append_left_inj] at h
  obtain ⟨htext, hprev⟩ := append_quote_inj hp hp' h
  rw [String.append_left_inj, String.append_right_inj] at htext
  exact ⟨hprev, htext⟩

variable {C}

theorem chainHash_eq_ok {prev hash : String} {e : AuditEntry τ δ} :
    chainHash C prev e = .ok hash ↔ ∃ text, C.dumps e = .ok text ∧
      toHex (C.sha256 (payload prev text).toUTF8.data.toList) = hash := by
  rw [chainHash, bind_eq_ok]
  simp only [pure, Except.pure, Except.ok.injEq]

variable (C) in
theorem collisionFree_of_injective (hsha : Function.Injective C.sha256)
    (hdumps : ∀ {e e' text}, C.dumps e = .ok text → C.dumps e' = .ok text → e = e')
    (hfresh : ∀ data, toHex (C.sha256 data) ≠ genesis) :
    CollisionFree (chainHash C) genesis := by
  refine CollisionFree.of_injective (S := fun p => '"' ∉ p.toList) (by decide) ?_ ?_ ?_
  · intro p e h hh
    obtain ⟨text, -, rfl⟩ := chainHash_eq_ok.mp hh
    exact quote_notMem_toHex _
  · intro p p' e e' h hp hp' hh hh'
    obtain ⟨text, htext, rfl⟩ := chainHash_eq_ok.mp hh
    obtain ⟨text', htext', heq⟩ := chainHash_eq_ok.mp hh'
    have hdata := String.toByteArray_inj.mp
      (ByteArray.ext (Array.toList_inj.mp (hsha (toHex_injective heq))))
    obtain ⟨rfl, rfl⟩ := payload_inj hp' hp hdata
    exact ⟨rfl, hdumps htext htext'⟩
  · intro p e h
    obtain ⟨text, -, htext⟩ := chainHash_eq_ok.mp h
    exact hfresh _ htext

end Collision

theorem verifyFrom_eq_true {g : String} {l : List (AuditEntry τ δ × String)} :
    verifyFrom C g l = .ok true ↔ Linked (chainHash C) g l := by
  induction l generalizing g with
  | nil => exact ⟨fun _ => trivial, fun _ => rfl⟩
  | cons a l ih =>
    obtain ⟨e, h⟩ := a
    rw [verifyFrom, Linked, bind_eq_ok]
    constructor
    · rintro ⟨expected, hexp, hrest⟩
      split at hrest
      · cases hrest
      · next heq =>
        rw [not_not.mp heq]
        exact ⟨hexp, ih.mp (not_not.mp heq ▸ hrest)⟩
    · rintro ⟨hexp, hrest⟩
      exact ⟨h, hexp, by rw [if_neg (not_not.mpr rfl)]; exact ih.mpr hrest⟩

theorem verifyFrom_isOk {g : String} {l : List (AuditEntry τ δ × String)}
    (hdumps : ∀ a ∈ l, ∃ text, C.dumps a.1 = .ok text) : ∃ b, verifyFrom C g l = .ok b := by
  induction l generalizing g with
  | nil => exact ⟨true, rfl⟩
  | cons a l ih =>
    obtain ⟨e, h⟩ := a
    obtain ⟨text, htext⟩ := hdumps _ List.mem_cons_self
    obtain ⟨hash, hhash⟩ : ∃ hash, chainHash C g e = .ok hash :=
      ⟨_, chainHash_eq_ok.mpr ⟨text, htext, rfl⟩⟩
    rw [verifyFrom, hhash]
    change ∃ b, (if h ≠ hash then .ok false else verifyFrom C h l) = .ok b
    split
    · exact ⟨false, rfl⟩
    · exact ih fun a ha => hdumps a (List.mem_cons_of_mem _ ha)

/-- If an eviction has made an entry the oldest one kept, it hashes from the start value to what
it hashed to when it was logged. -/
def EvictionUnseen (max : Int) (history : List (AuditEntry τ δ × String)) : Prop :=
  ∀ (i : Nat) a, 0 < i → i + max = history.length → history[i]? = some a →
    chainHash C genesis a.1 = .ok a.2

structure Keeps (l : HashChainedLog τ δ) (history : List (AuditEntry τ δ × String)) : Prop where
  linked : Linked (chainHash C) genesis history
  prevHash : l.prevHash = last genesis history
  entries : l.entries = history.drop (history.length - l.max.toNat)

section Eviction
variable {C} {l : HashChainedLog τ δ} {history : List (AuditEntry τ δ × String)} {max : Int}

theorem EvictionUnseen.of_length_le (h : history.length ≤ max) : EvictionUnseen C max history :=
  fun i _ hi hlen => by omega

theorem EvictionUnseen.length_le (hfree : CollisionFree (chainHash C) genesis)
    (hlinked : Linked (chainHash C) genesis history) (hmax : 1 ≤ max)
    (h : EvictionUnseen C max history) : history.length ≤ max := by
  by_contra hlong
  have hi : history.length - max.toNat < history.length := by omega
  have hunseen := h _ _ (by omega) (by omega) (List.getElem?_eq_getElem hi)
  have heq := hfree _ _ ((hlinked.drop_iff hi).mpr hunseen) hlinked (last_drop hi)
  have hlen := congrArg List.length heq
  rw [List.length_drop] at hlen
  omega

theorem Keeps.verifyIntegrity_iff (h : Keeps C l history) (hmax : 1 ≤ l.max) :
    l.verifyIntegrity C = .ok true ↔ EvictionUnseen C l.max history := by
  rw [verifyIntegrity, verifyFrom_eq_true, h.entries]
  by_cases hfits : history.length ≤ l.max
  · have h0 : history.length - l.max.toNat = 0 := by omega
    rw [h0, List.drop_zero]
    exact ⟨fun _ => .of_length_le hfits, fun _ => h.linked⟩
  · have hi : history.length - l.max.toNat < history.length := by omega
    rw [h.linked.drop_iff hi]
    constructor
    · intro hold i a _ hlen ha
      obtain rfl : history.length - l.max.toNat = i := by omega
      obtain ⟨_, rfl⟩ := List.getElem?_eq_some_iff.mp ha
      exact hold
    · intro hall
      exact hall _ _ (by omega) (by omega) (List.getElem?_eq_getElem hi)

end Eviction

section Journal
variable [EmptyCollection δ]

def journalStep (history : List (AuditEntry τ δ × String)) (c : LogCall τ δ) :
    List (AuditEntry τ δ × String) :=
  match chainHash C (last genesis history) c.entry with
  | .error _ => history
  | .ok hash => history ++ [(c.entry, hash)]

/-- All that the calls which did not raise have logged, evicted or not. -/
def journal (calls : List (LogCall τ δ)) : List (AuditEntry τ δ × String) :=
  calls.foldl (journalStep C) []

theorem journal_snoc (calls : List (LogCall τ δ)) (c : LogCall τ δ) :
    journal C (calls ++ [c]) = journalStep C (journal C calls) c := by
  rw [journal, List.foldl_append]
  rfl

variable {C} {l : HashChainedLog τ δ} {history : List (AuditEntry τ δ × String)}

theorem Keeps.log (h : Keeps C l history) (c : LogCall τ δ) :
    Keeps C (l.log C c).2 (journalStep C history c) := by
  unfold HashChainedLog.log journalStep
  rw [h.prevHash]
  cases hhash : chainHash C (last genesis history) c.entry with
  | error e => exact h
  | ok hash =>
    refine ⟨linked_snoc.mpr ⟨h.linked, hhash⟩, (last_snoc ..).symm, ?_⟩
    have hlen := congrArg List.length h.entries
    rw [List.length_drop] at hlen
    simp only [h.entries, List.length_append, List.length_singleton, List.length_drop]
    split
    · next hfull =>
      rw [← List.drop_one, ← List.drop_append_of_le_length (by omega), List.drop_drop]
      congr 1
      omega
    · next hfits =>
      rw [← List.drop_append_of_le_length (by omega)]
      congr 1
      omega

theorem journal_length_le (calls : List (LogCall τ δ)) :
    (journal C calls).length ≤ calls.length := by
  induction calls using List.reverseRecOn with
  | nil => exact Nat.le_refl 0
  | append_singleton calls c ih =>
    rw [journal_snoc, journalStep, List.length_append, List.length_singleton]
    split
    · omega
    · rw [List.length_append, List.length_singleton]
      omega

theorem log_max (c : LogCall τ δ) : (l.log C c).2.max = l.max := by
  unfold HashChainedLog.log
  split <;> rfl

variable (C) in
theorem keeps_exec (max : Int) (calls : List (LogCall τ δ)) :
    Keeps C ((machine C).exec (new max) calls) (journal C calls) := by
  induction calls using List.reverseRecOn with
  | nil => exact ⟨trivial, rfl, List.drop_nil.symm⟩
  | append_singleton calls c ih =>
    rw [Mealy.exec_snoc, journal_snoc]
    exact ih.log c

theorem exec_max (max : Int) (calls : List (LogCall τ δ)) :
    ((machine C).exec (new max) calls).max = max := by
  induction calls using List.reverseRecOn with
  | nil => rfl
  | append_singleton calls c ih =>
    rw [Mealy.exec_snoc]
    exact (log_max c).trans ih

theorem prefix_journal_iff {calls : List (LogCall τ δ)} :
    history <+: journal C calls ↔ ∃ made, made <+: calls ∧ history = journal C made := by
  induction calls using List.reverseRecOn with
  | nil =>
    constructor
    · intro h
      exact ⟨[], List.nil_prefix, List.prefix_nil.mp h⟩
    · rintro ⟨made, hmade, rfl⟩
      exact List.prefix_nil.mp hmade ▸ List.prefix_rfl
  | append_singleton calls c ih =>
    have hmade : (∃ made, made <+: calls ++ [c] ∧ history = journal C made) ↔
        history = journal C (calls ++ [c]) ∨ history <+: journal C calls := by
      simp only [List.prefix_concat_iff, or_and_right, exists_or, exists_eq_left, ih]
    rw [hmade, journal_snoc, journalStep]
    split
    · exact ⟨.inr, fun h => h.elim (fun h => h ▸ List.prefix_rfl) id⟩
    · exact List.prefix_concat_iff

/-- The JSON text of an entry without details, logged at a whole second under a name that needs
no escapes. -/
def plainText (e : AuditEntry Nat (List Empty)) : String :=
  "\x7b\"detail\": \x7b\x7d, \"event\": \"" ++ e.event ++ "\", \"timestamp\": " ++
    Nat.repr e.timestamp ++ ".0\x7d"

def plainHash (sha256 : Bytes → Bytes) : ChainHash Nat (List Empty) :=
  ⟨fun e => .ok (plainText e), sha256⟩

def bootThenFailure : List (LogCall Nat (List Empty)) :=
  [⟨"boot", none, 1⟩, ⟨"auth_failure", none, 2⟩]

/-- **The check over a run.** After every call the check passes if and only if no eviction so far
shows; for a collision-free chain hash, as long as at most `max` calls went through. A call that
raises changes nothing. -/
theorem verifyIntegrity_every_call {max : Int} (hmax : 1 ≤ max) (calls : List (LogCall τ δ)) :
    ((∀ made, made <+: calls → verifyIntegrity C ((machine C).exec (new max) made) = .ok true) ↔
        ∀ history, history <+: journal C calls → EvictionUnseen C max history) ∧
      (CollisionFree (chainHash C) genesis →
        ((∀ history, history <+: journal C calls → EvictionUnseen C max history) ↔
          (journal C calls).length ≤ max)) ∧
      ∀ (l : HashChainedLog τ δ) c e, (l.log C c).1 = .error e → (l.log C c).2 = l := by
  have hlinked := (keeps_exec C max calls).linked
  have hcheck : ∀ made, verifyIntegrity C ((machine C).exec (new max) made) = .ok true ↔
      EvictionUnseen C max (journal C made) := by
    intro made
    have hkeeps := (keeps_exec C max made).verifyIntegrity_iff
    rw [exec_max] at hkeeps
    exact hkeeps hmax
  refine ⟨?_, fun hfree => ⟨?_, ?_⟩, ?_⟩
  · constructor
    · intro h history hprefix
      obtain ⟨made, hmade, rfl⟩ := prefix_journal_iff.mp hprefix
      exact (hcheck made).mp (h made hmade)
    · intro h made hmade
      exact (hcheck made).mpr (h _ (prefix_journal_iff.mpr ⟨made, hmade, rfl⟩))
  · intro h
    exact (h _ List.prefix_rfl).length_le hfree hlinked hmax
  · intro hlen history hprefix
    have := hprefix.length_le
    exact .of_length_le (by omega)
  · intro l c e he
    unfold log at he ⊢
    split at he
    · rfl
    · cases he

theorem verifyIntegrity_every_call_two_kept : verifyIntegrity (plainHash Sha256.hash)
    ((machine (plainHash Sha256.hash)).exec (new 2) bootThenFailure) = .ok true :=
  (verifyIntegrity_every_call (by decide) bootThenFailure).1.mpr
    (fun _ h => .of_length_le (Int.ofNat_le.mpr (h.length_le.trans (journal_length_le _))))
    _ List.prefix_rfl

theorem verifyIntegrity_after_eviction : verifyIntegrity (plainHash Sha256.hash)
    ((machine (plainHash Sha256.hash)).exec (new 1) bootThenFailure) = .ok false := by
  -- with room for one entry, the journal of two calls fails its own check
  decide +kernel

theorem entries_exec {max : Int} {calls : List (LogCall τ δ)} (hlen : (calls.length : Int) ≤ max) :
    ((machine C).exec (new max) calls).entries = journal C calls := by
  -- nothing is evicted from a log with room for all calls
  have hjournal := journal_length_le (C := C) calls
  have h0 : (journal C calls).length - max.toNat = 0 := by omega
  rw [(keeps_exec C max calls).entries, exec_max, h0, List.drop_zero]

/-- **Edited journals.** An edit that leaves the stored hashes alone passes the check if and only
if all it does is drop the most recent entries. -/
theorem verifyIntegrity_edited (hfree : CollisionFree (chainHash C) genesis) {max : Int}
    {calls : List (LogCall τ δ)} (hlen : (calls.length : Int) ≤ max)
    {edited : List (AuditEntry τ δ × String)}
    (hhashes : ∀ a ∈ edited, a.2 ∈ ((machine C).exec (new max) calls).entries.map Prod.snd)
    (hdumps : ∀ a ∈ edited, ∃ text, C.dumps a.1 = .ok text) :
    verifyIntegrity C { (machine C).exec (new max) calls with entries := edited } = .ok false ↔
      ¬edited <+: ((machine C).exec (new max) calls).entries := by
  have hkeeps := keeps_exec C max calls
  rw [entries_exec hlen] at hhashes ⊢
  have htrue : verifyFrom C genesis edited = .ok true ↔ edited <+: journal C calls := by
    rw [verifyFrom_eq_true]
    exact ⟨fun h => hfree.prefix_of_hashes hkeeps.linked h hhashes, hkeeps.linked.of_prefix⟩
  obtain ⟨b, hb⟩ := verifyFrom_isOk C (g := genesis) hdumps
  rw [← htrue, verifyIntegrity, hb]
  cases b <;> decide

section Example

def keepingHash : ChainHash Nat (List Empty) := plainHash (1 :: ·)

theorem quote_notMem_repr (n : Nat) : '"' ∉ (Nat.repr n).toList := by
  intro h
  have := Nat.isDigit_of_mem_toDigits (by decide) (by decide) (Nat.toList_repr ▸ h)
  exact absurd this (by decide)

theorem plainText_eq (e : AuditEntry Nat (List Empty)) :
    plainText e = ("\x7b\"detail\": \x7b\x7d, \"event\": \"" ++ e.event ++
      "\", \"timestamp") ++ "\"" ++ (": " ++ Nat.repr e.timestamp) ++ ".0\x7d" := by
  have hq : "\", \"timestamp\": " = "\", \"timestamp" ++ "\"" ++ ": " := by
    rw [← String.toList_inj]
    simp only [String.toList_append]
    rfl
  unfold plainText
  rw [hq]
  repeat rw [String.append_assoc]

theorem plainText_injective : Function.Injective plainText := by
  intro e e' h
  have hdigits : ∀ n, '"' ∉ (": " ++ Nat.repr n).toList := by
    intro n
    simpa using quote_notMem_repr n
  rw [plainText_eq, plainText_eq, String.append_left_inj] at h
  obtain ⟨hevent, htime⟩ := append_quote_inj (hdigits _) (hdigits _) h
  rw [String.append_left_inj, String.append_right_inj] at hevent
  rw [String.append_right_inj] at htime
  have htime' : e.timestamp = e'.timestamp := by
    rw [← Nat.ofDigitChars_ten_toDigits (n := e.timestamp), ← Nat.toList_repr, htime,
      Nat.toList_repr, Nat.ofDigitChars_ten_toDigits]
  cases e
  cases e'
  cases hevent
  cases htime'
  congr 1
  exact Subsingleton.elim _ _

theorem keepingHash_collisionFree : CollisionFree (chainHash keepingHash) genesis := by
  apply collisionFree_of_injective
  · exact List.cons_injective
  · intro e e' text he he'
    exact plainText_injective (Except.ok.inj (he.trans he'.symm))
  · intro data h
    have hchars := String.ofList_injective h
    have hsecond : some (hexDigit 1) = some '0' := congrArg (fun cs => cs[1]?) hchars
    exact absurd hsecond (by decide)

theorem verifyIntegrity_oldest_deleted : verifyIntegrity keepingHash
    { (machine keepingHash).exec (new 2) bootThenFailure with
      entries := ((machine keepingHash).exec (new 2) bootThenFailure).entries.drop 1 } =
    .ok false := by
  refine (verifyIntegrity_edited keepingHash_collisionFree (by decide) ?_ ?_).mpr ?_
  · exact fun a ha => List.mem_map_of_mem (List.mem_of_mem_drop ha)
  · exact fun a _ => ⟨plainText a.1, rfl⟩
  · decide +kernel

theorem verifyIntegrity_newest_deleted : CollisionFree (chainHash keepingHash) genesis ∧
    ((machine keepingHash).exec (new 2) bootThenFailure).entries.length = 2 ∧
    verifyIntegrity keepingHash
      { (machine keepingHash).exec (new 2) bootThenFailure with
        entries := ((machine keepingHash).exec (new 2) bootThenFailure).entries.take 1 } =
      .ok true := by
  -- deleting the most recent entry goes unseen
  have hroom : (bootThenFailure.length : Int) ≤ 2 := by decide
  have hall := entries_exec (C := keepingHash) hroom
  have hlinked := (keeps_exec keepingHash 2 bootThenFailure).linked
  refine ⟨keepingHash_collisionFree, congrArg List.length hall, ?_⟩
  rw [verifyIntegrity, verifyFrom_eq_true]
  dsimp only
  rw [hall]
  exact hlinked.of_prefix (List.take_prefix 1 _)

end Example

end Journal

end HashChainedLog
end SecOC
