import Mathlib.Data.List.Basic

/-! # Lists laid over one another by key

`base.overlay key more` keeps the elements of `base` whose key does not occur in `more`, and
puts `more` after them: a more specific layer replaces what it declares again. A stack of layers
is a fold.
-/

namespace List

variable {α κ : Type} [DecidableEq κ] (key : α → κ)

/-- `more` laid over `base`. -/
def overlay (base more : List α) : List α :=
  base.filter (fun a => decide (key a ∉ more.map key)) ++ more

variable {key}

variable {base more : List α} {a : α}

theorem mem_overlay : a ∈ base.overlay key more ↔ a ∈ base ∧ key a ∉ more.map key ∨ a ∈ more := by
  rw [overlay, mem_append, mem_filter, decide_eq_true_eq]

theorem overlay_eq_nil : base.overlay key more = [] ↔ base = [] ∧ more = [] := by
  constructor
  · intro h
    obtain ⟨hbase, rfl⟩ := append_eq_nil_iff.mp h
    refine ⟨?_, rfl⟩
    rw [filter_eq_nil_iff] at hbase
    rw [eq_nil_iff_forall_not_mem]
    intro a ha
    exact hbase a ha (by simp)
  · rintro ⟨rfl, rfl⟩
    rfl

theorem mem_map_key_overlay {k : κ} :
    k ∈ (base.overlay key more).map key ↔ k ∈ base.map key ∨ k ∈ more.map key := by
  constructor
  · intro h
    obtain ⟨a, ha, rfl⟩ := mem_map.mp h
    rcases mem_overlay.mp ha with ⟨ha, _⟩ | ha
    · exact .inl (mem_map_of_mem ha)
    · exact .inr (mem_map_of_mem ha)
  · intro h
    by_cases hmore : k ∈ more.map key
    · obtain ⟨a, ha, rfl⟩ := mem_map.mp hmore
      exact mem_map_of_mem (mem_overlay.mpr (.inr ha))
    · obtain ⟨a, ha, rfl⟩ := mem_map.mp (h.resolve_right hmore)
      exact mem_map_of_mem (mem_overlay.mpr (.inl ⟨ha, hmore⟩))

/-- Two lists laid over a third one after the other, or together. -/
theorem overlay_assoc :
    (base.overlay key more).overlay key own = base.overlay key (more.overlay key own) := by
  -- Either way an element of `base` stays if neither of the others has its key.
  have hkeys : ∀ a ∈ base, (decide (key a ∉ own.map key) && decide (key a ∉ more.map key)) =
      decide (key a ∉ (more.overlay key own).map key) := by
    intro a _
    rw [← Bool.decide_and, decide_eq_decide, mem_map_key_overlay, not_or, and_comm]
  calc (base.overlay key more).overlay key own
      = base.filter (fun a => decide (key a ∉ own.map key) && decide (key a ∉ more.map key)) ++
          (more.filter (fun a => decide (key a ∉ own.map key)) ++ own) := by
        rw [overlay, overlay, filter_append, filter_filter, append_assoc]
    _ = base.overlay key (more.overlay key own) := by
        rw [filter_congr hkeys, overlay, overlay]

variable {own : List α}

/-- A layer all of whose keys the next one declares again can be left out. -/
theorem overlay_overlay_of_subset (h : more.map key ⊆ own.map key) :
    (base.overlay key more).overlay key own = base.overlay key own := by
  unfold overlay
  rw [filter_append, filter_filter]
  have hmore : more.filter (fun a => decide (key a ∉ own.map key)) = [] := by
    rw [filter_eq_nil_iff]
    intro a ha hout
    exact of_decide_eq_true hout (h (mem_map_of_mem ha))
  rw [hmore, append_nil]
  congr 1
  refine filter_congr fun a _ => ?_
  by_cases hown : key a ∈ own.map key
  · simp only [hown, not_true, decide_false, Bool.false_and]
  · have hnot : key a ∉ more.map key := fun hin => hown (h hin)
    simp only [hown, hnot, not_false_eq_true, decide_true, Bool.and_self]

/-- What an overlay shows outside the keys of its top layer is what lies below. -/
theorem filter_eq_of_overlay_eq {base' : List α}
    (h : base.overlay key own = base'.overlay key own) :
    base.filter (fun a => decide (key a ∉ own.map key)) =
      base'.filter (fun a => decide (key a ∉ own.map key)) :=
  append_cancel_right h

/-! ### Stacks -/

variable {layers : List (List α)}

theorem mem_of_mem_foldl_overlay (h : a ∈ layers.foldl (overlay key) base) :
    a ∈ base ∨ ∃ l ∈ layers, a ∈ l := by
  induction layers generalizing base with
  | nil => exact .inl h
  | cons l layers ih =>
    rcases ih h with hbase | ⟨l', hl', ha⟩
    · rcases mem_overlay.mp hbase with ⟨ha, _⟩ | ha
      · exact .inl ha
      · exact .inr ⟨l, mem_cons_self, ha⟩
    · exact .inr ⟨l', mem_cons_of_mem _ hl', ha⟩

/-- An element below a stack stays, or its key is declared again in the stack. -/
theorem mem_foldl_overlay_or (key : α → κ) (layers : List (List α)) (ha : a ∈ base) :
    a ∈ layers.foldl (overlay key) base ∨
      ∃ l ∈ layers, ∃ b ∈ l, key b = key a ∧ b ∈ layers.foldl (overlay key) base := by
  induction layers generalizing base a with
  | nil => exact .inl ha
  | cons l layers ih =>
    by_cases hl : key a ∈ l.map key
    · -- `l` declares the key again; from there on the argument is about its element.
      obtain ⟨b, hb, hkey⟩ := mem_map.mp hl
      have hin : b ∈ base.overlay key l := mem_overlay.mpr (.inr hb)
      rcases ih hin with hstay | ⟨l', hl', c, hc, hckey, hstay⟩
      · exact .inr ⟨l, mem_cons_self, b, hb, hkey, hstay⟩
      · exact .inr ⟨l', mem_cons_of_mem _ hl', c, hc, hckey.trans hkey, hstay⟩
    · have hin : a ∈ base.overlay key l := mem_overlay.mpr (.inl ⟨ha, hl⟩)
      rcases ih hin with hstay | ⟨l', hl', c, hc, hckey, hstay⟩
      · exact .inl hstay
      · exact .inr ⟨l', mem_cons_of_mem _ hl', c, hc, hckey, hstay⟩

theorem exists_mem_foldl_overlay (key : α → κ) (base : List α) (hl : l ∈ layers) (ha : a ∈ l) :
    ∃ l' ∈ layers, ∃ b ∈ l', key b = key a ∧ b ∈ layers.foldl (overlay key) base := by
  obtain ⟨pre, post, rfl⟩ := append_of_mem hl
  rw [foldl_append, foldl_cons]
  have hin : a ∈ (pre.foldl (overlay key) base).overlay key l := mem_overlay.mpr (.inr ha)
  rcases mem_foldl_overlay_or key post hin with hstay | ⟨l', hl', b, hb, hkey, hstay⟩
  · exact ⟨l, by simp, a, ha, rfl, hstay⟩
  · exact ⟨l', by simp [hl'], b, hb, hkey, hstay⟩

/-- The keys of a stack are those of its layers. -/
theorem mem_map_key_foldl_overlay {k : κ} :
    k ∈ (layers.foldl (overlay key) base).map key ↔
      k ∈ base.map key ∨ ∃ l ∈ layers, k ∈ l.map key := by
  induction layers generalizing base with
  | nil => simp
  | cons l layers ih => rw [foldl_cons, ih, mem_map_key_overlay, exists_mem_cons_iff, or_assoc]

theorem foldl_overlay_covered (h : ∀ l ∈ layers, l.map key ⊆ own.map key) :
    (layers.foldl (overlay key) base).overlay key own = base.overlay key own := by
  induction layers generalizing base with
  | nil => rfl
  | cons l layers ih =>
    rw [foldl_cons, ih fun l' hl' => h l' (mem_cons_of_mem _ hl'),
      overlay_overlay_of_subset (h l mem_cons_self)]

end List
