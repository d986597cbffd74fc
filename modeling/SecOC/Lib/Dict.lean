import Mathlib.Data.List.Nodup
import Mathlib.Data.List.Lemmas

/-! Insertion-ordered finite maps with pairwise distinct keys, as the dictionaries of a
scripting language behave: writing a present key keeps its place, a new key goes last. -/

namespace Py

structure Dict (α β : Type*) where
  items : List (α × β)
  nodup : (items.map Prod.fst).Nodup

namespace Dict
variable {α β : Type*} [DecidableEq α]

def setItem (k : α) (v : β) : List (α × β) → List (α × β)
  | [] => [(k, v)]
  | e :: es => if e.1 = k then (k, v) :: es else e :: setItem k v es

theorem mem_keys_setItem (k : α) (v : β) (es : List (α × β)) (x : α) :
    x ∈ (setItem k v es).map Prod.fst ↔ x = k ∨ x ∈ es.map Prod.fst := by
  induction es with
  | nil => simp [setItem]
  | cons e es ih =>
    by_cases h : e.1 = k
    · simp [setItem, h]
    · simp only [setItem, if_neg h, List.map_cons, List.mem_cons, ih]
      tauto

theorem nodup_setItem (k : α) (v : β) (es : List (α × β)) (h : (es.map Prod.fst).Nodup) :
    ((setItem k v es).map Prod.fst).Nodup := by
  induction es with
  | nil => simp [setItem]
  | cons e es ih =>
    have hh := List.nodup_cons.mp h
    by_cases hk : e.1 = k
    · rw [setItem, if_pos hk, List.map_cons, ← hk]
      exact h
    · simp only [setItem, if_neg hk, List.map_cons, List.nodup_cons, mem_keys_setItem]
      exact ⟨not_or.mpr ⟨hk, hh.1⟩, ih hh.2⟩

theorem lookup_cons_eq (j : α) (w : β) (es : List (α × β)) (x : α) :
    ((j, w) :: es).lookup x = if x = j then some w else es.lookup x := by
  by_cases h : x = j
  · simp [h]
  · simp [List.lookup_cons, beq_eq_false_iff_ne.mpr h, h]

theorem lookup_setItem (k : α) (v : β) (es : List (α × β)) (x : α) :
    (setItem k v es).lookup x = if x = k then some v else es.lookup x := by
  induction es with
  | nil => exact lookup_cons_eq k v [] x
  | cons e es ih =>
    obtain ⟨j, w⟩ := e
    by_cases hk : j = k
    · subst j
      by_cases hx : x = k <;> simp only [setItem, if_true, lookup_cons_eq, hx, if_false]
    · simp only [setItem, if_neg hk, lookup_cons_eq, ih]
      by_cases hj : x = j
      · rw [if_pos hj, if_neg (fun h => hk (hj.symm.trans h)), if_pos hj]
      · rw [if_neg hj, if_neg hj]

theorem lookup_eq_none_of_notMem {k : α} {es : List (α × β)} (h : k ∉ es.map Prod.fst) :
    es.lookup k = none := by
  rw [List.lookup_eq_none_iff]
  intro e he
  have hne : k ≠ e.1 := fun hk => h (hk ▸ List.mem_map_of_mem he)
  simpa using hne

theorem mem_keys_iff {k : α} {es : List (α × β)} :
    k ∈ es.map Prod.fst ↔ ∃ v, es.lookup k = some v := by
  induction es with
  | nil => simp
  | cons e es ih =>
    obtain ⟨j, w⟩ := e
    rw [List.map_cons, List.mem_cons, lookup_cons_eq]
    by_cases hk : k = j
    · simp [hk]
    · simp [hk, ih]

theorem mem_of_lookup {k : α} {v : β} {es : List (α × β)} (h : es.lookup k = some v) :
    (k, v) ∈ es := by
  obtain ⟨es₁, es₂, rfl, -⟩ := List.lookup_eq_some_iff.mp h
  exact List.mem_append_right _ List.mem_cons_self

theorem lookup_of_mem {k : α} {v : β} {es : List (α × β)} (hnodup : (es.map Prod.fst).Nodup)
    (h : (k, v) ∈ es) : es.lookup k = some v := by
  induction es with
  | nil => cases h
  | cons e es ih =>
    obtain ⟨j, w⟩ := e
    obtain ⟨hj, hnodup⟩ := List.nodup_cons.mp hnodup
    rw [lookup_cons_eq]
    rcases List.mem_cons.mp h with he | h
    · cases he
      exact if_pos rfl
    · have hmem : k ∈ es.map Prod.fst := List.mem_map.mpr ⟨(k, v), h, rfl⟩
      have hne : k ≠ j := fun hk => hj (hk ▸ hmem)
      rw [if_neg hne, ih hnodup h]

theorem setItem_of_notMem {k : α} {es : List (α × β)} (h : k ∉ es.map Prod.fst) (v : β) :
    setItem k v es = es ++ [(k, v)] := by
  induction es with
  | nil => rfl
  | cons e es ih =>
    rw [List.map_cons, List.mem_cons, not_or] at h
    rw [setItem, if_neg (Ne.symm h.1), ih h.2, List.cons_append]

theorem map_fst_setItem {k : α} {es : List (α × β)} (h : k ∈ es.map Prod.fst) (v : β) :
    (setItem k v es).map Prod.fst = es.map Prod.fst := by
  induction es with
  | nil => cases h
  | cons e es ih =>
    by_cases hk : e.1 = k
    · rw [setItem, if_pos hk, List.map_cons, List.map_cons, hk]
    · have hmem : k ∈ es.map Prod.fst := (List.mem_cons.mp h).resolve_left (Ne.symm hk)
      rw [setItem, if_neg hk, List.map_cons, List.map_cons, ih hmem]

theorem map_setItem {γ : Type*} (f : β → γ) (k : α) (v : β) (es : List (α × β)) :
    (setItem k v es).map (fun e => (e.1, f e.2)) =
      setItem k (f v) (es.map fun e => (e.1, f e.2)) := by
  induction es with
  | nil => rfl
  | cons e es ih =>
    by_cases hk : e.1 = k
    · rw [setItem, if_pos hk, List.map_cons, List.map_cons, setItem, if_pos hk]
    · rw [setItem, if_neg hk, List.map_cons, List.map_cons, setItem, if_neg hk, ih]

theorem mem_setItem {k : α} {v : β} {es : List (α × β)} {e : α × β} (h : e ∈ setItem k v es) :
    e = (k, v) ∨ e ∈ es := by
  induction es with
  | nil => exact Or.inl (List.mem_singleton.mp h)
  | cons e' es ih =>
    rw [setItem] at h
    split_ifs at h with hk
    · exact (List.mem_cons.mp h).imp id (List.mem_cons_of_mem _)
    · rcases List.mem_cons.mp h with rfl | h
      · exact Or.inr List.mem_cons_self
      · exact (ih h).imp id (List.mem_cons_of_mem _)

theorem lookup_map {γ : Type*} (f : β → γ) (es : List (α × β)) (k : α) :
    (es.map fun e => (e.1, f e.2)).lookup k = (es.lookup k).map f := by
  induction es with
  | nil => rfl
  | cons e es ih =>
    obtain ⟨j, w⟩ := e
    rw [List.map_cons, lookup_cons_eq, lookup_cons_eq, ih]
    split <;> rfl

theorem items_ext {es es' : List (α × β)} (hkeys : es'.map Prod.fst = es.map Prod.fst)
    (hnodup : (es.map Prod.fst).Nodup) (hlookup : ∀ k, es'.lookup k = es.lookup k) :
    es' = es := by
  induction es generalizing es' with
  | nil => exact List.map_eq_nil_iff.mp hkeys
  | cons e es ih =>
    obtain ⟨k, v⟩ := e
    cases es' with
    | nil => cases hkeys
    | cons e' es' =>
      obtain ⟨k', v'⟩ := e'
      obtain ⟨rfl, hrest⟩ := List.cons.inj hkeys
      obtain ⟨hk, hnodup'⟩ := List.nodup_cons.mp hnodup
      simp only [lookup_cons_eq] at hlookup
      have hv : v' = v := by
        have hself := hlookup k'
        rw [if_pos rfl, if_pos rfl] at hself
        exact Option.some.inj hself
      rw [hv, ih hrest hnodup']
      intro key
      by_cases hkey : key = k'
      · subst hkey
        rw [lookup_eq_none_of_notMem hk, lookup_eq_none_of_notMem (hrest ▸ hk)]
      · have hother := hlookup key
        rwa [if_neg hkey, if_neg hkey] at hother

omit [DecidableEq α] in
theorem eq_of_items {d d' : Dict α β} (h : d.items = d'.items) : d = d' := by
  cases d
  cases d'
  cases h
  rfl

def empty : Dict α β := ⟨[], List.nodup_nil⟩

def get? (d : Dict α β) (k : α) : Option β := d.items.lookup k

def set (d : Dict α β) (k : α) (v : β) : Dict α β :=
  ⟨setItem k v d.items, nodup_setItem k v d.items d.nodup⟩

def getD (d : Dict α β) (k : α) (v : β) : β := (d.get? k).getD v

def ofItems (es : List (α × β)) : Dict α β := es.foldl (fun d e => d.set e.1 e.2) empty

theorem get?_of_mem {d : Dict α β} {e : α × β} (h : e ∈ d.items) : d.get? e.1 = some e.2 :=
  lookup_of_mem d.nodup h

theorem get?_set (d : Dict α β) (k : α) (v : β) (x : α) :
    (d.set k v).get? x = if x = k then some v else d.get? x := lookup_setItem k v d.items x

@[simp] theorem get?_set_self (d : Dict α β) (k : α) (v : β) : (d.set k v).get? k = some v := by
  rw [get?_set, if_pos rfl]

theorem get?_set_ne (d : Dict α β) {k x : α} (v : β) (h : x ≠ k) :
    (d.set k v).get? x = d.get? x := by rw [get?_set, if_neg h]

@[simp] theorem getD_set_self (d : Dict α β) (k : α) (v w : β) : (d.set k v).getD k w = v := by
  simp [getD]

theorem getD_set_ne (d : Dict α β) {k x : α} (v w : β) (h : x ≠ k) :
    (d.set k v).getD x w = d.getD x w := by rw [getD, get?_set_ne d v h, getD]

theorem setItem_eq_self {k : α} {v : β} {es : List (α × β)} (h : es.lookup k = some v) :
    setItem k v es = es := by
  induction es with
  | nil => cases h
  | cons e es ih =>
    obtain ⟨j, w⟩ := e
    rw [lookup_cons_eq] at h
    by_cases hk : j = k
    · rw [if_pos hk.symm] at h
      cases h
      rw [setItem, if_pos hk, hk]
    · rw [if_neg (Ne.symm hk)] at h
      rw [setItem, if_neg hk, ih h]

theorem set_eq_self_iff {d : Dict α β} {k : α} {v : β} : d.set k v = d ↔ d.get? k = some v := by
  constructor
  · intro h
    rw [← h, get?_set_self]
  · intro h
    obtain ⟨es, hnodup⟩ := d
    have hitems : setItem k v es = es := setItem_eq_self h
    unfold set
    simp only [hitems]

def erase (d : Dict α β) (k : α) : Dict α β :=
  ⟨d.items.filter (fun e => e.1 ≠ k), d.nodup.sublist (List.filter_sublist.map _)⟩

theorem lookup_filter_ne (k x : α) (es : List (α × β)) :
    (es.filter (fun e => e.1 ≠ k)).lookup x = if x = k then none else es.lookup x := by
  induction es with
  | nil => simp
  | cons e es ih =>
    obtain ⟨j, w⟩ := e
    by_cases hj : j = k
    · rw [List.filter_cons_of_neg (by simpa using hj), ih, lookup_cons_eq]
      by_cases hx : x = k
      · rw [if_pos hx, if_pos hx]
      · rw [if_neg hx, if_neg hx, if_neg (fun h => hx (h.trans hj))]
    · rw [List.filter_cons_of_pos (by simpa using hj), lookup_cons_eq, lookup_cons_eq, ih]
      by_cases hx : x = j
      · rw [if_pos hx, if_pos hx, if_neg (fun h => hj (hx.symm.trans h))]
      · rw [if_neg hx, if_neg hx]

theorem get?_erase (d : Dict α β) (k x : α) :
    (d.erase k).get? x = if x = k then none else d.get? x := lookup_filter_ne k x d.items

theorem filter_setItem (k : α) (v : β) (es : List (α × β)) :
    (setItem k v es).filter (fun e => e.1 ≠ k) = es.filter (fun e => e.1 ≠ k) := by
  induction es with
  | nil => simp [setItem]
  | cons e es ih =>
    by_cases hk : e.1 = k
    · simp [setItem, hk]
    · simp only [setItem, if_neg hk, List.filter_cons, ih]

theorem set_items_of_none {d : Dict α β} {k : α} (h : k ∉ d.items.map Prod.fst) (v : β) :
    (d.set k v).items = d.items ++ [(k, v)] := setItem_of_notMem h v

theorem erase_of_none {d : Dict α β} {k : α} (h : k ∉ d.items.map Prod.fst) : d.erase k = d := by
  apply eq_of_items
  apply List.filter_eq_self.mpr
  intro e he
  have hne : e.1 ≠ k := fun hk => h (hk ▸ List.mem_map_of_mem he)
  exact decide_eq_true hne

theorem erase_set_self (d : Dict α β) (k : α) (v : β) : (d.set k v).erase k = d.erase k :=
  eq_of_items (filter_setItem k v d.items)

def mapValues {γ : Type*} (f : β → γ) (d : Dict α β) : Dict α γ :=
  ⟨d.items.map fun e => (e.1, f e.2), by simpa [Function.comp_def] using d.nodup⟩

theorem get?_mapValues {γ : Type*} (f : β → γ) (d : Dict α β) (k : α) :
    (d.mapValues f).get? k = (d.get? k).map f := lookup_map f d.items k

theorem mapValues_set {γ : Type*} (f : β → γ) (d : Dict α β) (k : α) (v : β) :
    (d.set k v).mapValues f = (d.mapValues f).set k (f v) :=
  eq_of_items (map_setItem f k v d.items)

def total (d : Dict α Nat) : Nat := d.items.foldr (fun e n => e.2 + n) 0

theorem total_setItem (k : α) (v : Nat) (es : List (α × Nat)) :
    (setItem k v es).foldr (fun e n => e.2 + n) 0 + (es.lookup k).getD 0 =
      es.foldr (fun e n => e.2 + n) 0 + v := by
  induction es with
  | nil => simp [setItem]
  | cons e es ih =>
    obtain ⟨j, w⟩ := e
    by_cases hk : j = k
    · simp only [setItem, lookup_cons_eq, hk, if_true, List.foldr_cons, Option.getD_some]
      omega
    · simp only [setItem, lookup_cons_eq, hk, Ne.symm hk, if_false, List.foldr_cons]
      omega

theorem total_set_add (d : Dict α Nat) (k : α) (n : Nat) :
    (d.set k (d.getD k 0 + n)).total = d.total + n := by
  have h : (d.set k (d.getD k 0 + n)).total + d.getD k 0 = d.total + (d.getD k 0 + n) :=
    total_setItem k _ d.items
  omega

end Dict
end Py
