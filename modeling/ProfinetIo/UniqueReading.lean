import Mathlib.Tactic

/-!
# Texts that can be read back

A text is uniquely read if, whatever stands behind it, both the value and the
rest are determined.  Texts of one length are uniquely read, and so are texts in
front of a symbol that does not occur in them; reading is kept when texts are
put together, and a numbered list of such texts determines its items.
-/

namespace UniqueReading

variable {α β σ : Type*} {text : α → List σ} {other : β → List σ}

def UniquelyRead (text : α → List σ) : Prop :=
  ∀ a b rest rest', text a ++ rest = text b ++ rest' → a = b ∧ rest = rest'

namespace UniquelyRead

theorem comp (h : UniquelyRead text) {f : β → α}
    (hf : Function.Injective f) : UniquelyRead fun b => text (f b) := by
  intro a b rest rest' hsame
  obtain ⟨hvalue, hrest⟩ := h (f a) (f b) rest rest' hsame
  exact ⟨hf hvalue, hrest⟩

theorem after (h : UniquelyRead text) (literal : List σ) :
    UniquelyRead fun a => literal ++ text a := by
  intro a b rest rest' hsame
  rw [List.append_assoc, List.append_assoc] at hsame
  exact h a b rest rest' (List.append_cancel_left hsame)

theorem before (h : UniquelyRead text) (literal : List σ) :
    UniquelyRead fun a => text a ++ literal := by
  intro a b rest rest' hsame
  rw [List.append_assoc, List.append_assoc] at hsame
  obtain ⟨hvalue, hrest⟩ := h a b _ _ hsame
  exact ⟨hvalue, List.append_cancel_left hrest⟩

theorem pair (h : UniquelyRead text) (h' : UniquelyRead other) :
    UniquelyRead fun p : α × β => text p.1 ++ other p.2 := by
  rintro ⟨a, b⟩ ⟨a', b'⟩ rest rest' hsame
  simp only [List.append_assoc] at hsame
  obtain ⟨hfirst, hmore⟩ := h a a' _ _ hsame
  obtain ⟨hsecond, hrest⟩ := h' b b' _ _ hmore
  exact ⟨Prod.ext hfirst hsecond, hrest⟩

end UniquelyRead

/-! ## Joined texts -/

section Joined

variable {separator stop : σ}

/-- Neither list contains the symbol behind the other one. -/
theorem append_cons_inj {first second rest rest' : List σ} {x y : σ}
    (hx : x ∉ second) (hy : y ∉ first)
    (h : first ++ x :: rest = second ++ y :: rest') :
    first = second ∧ x = y ∧ rest = rest' := by
  induction first generalizing second with
  | nil =>
      cases second with
      | nil => simpa using h
      | cons head second =>
          obtain ⟨rfl, -⟩ := List.cons.inj h
          exact absurd List.mem_cons_self hx
  | cons head first ih =>
      cases second with
      | nil =>
          obtain ⟨rfl, -⟩ := List.cons.inj h
          exact absurd List.mem_cons_self hy
      | cons head' second =>
          obtain ⟨rfl, hmore⟩ := List.cons.inj h
          obtain ⟨rfl, hsame⟩ := ih
            (fun hmem => hx (List.mem_cons_of_mem _ hmem))
            (fun hmem => hy (List.mem_cons_of_mem _ hmem)) hmore
          exact ⟨rfl, hsame⟩

/-- Items with a separator between them, up to a symbol of its own, determine
the list. -/
theorem joined_inj
    (hinjective : Function.Injective text)
    (hseparator : ∀ a, separator ∉ text a) (hstop : ∀ a, stop ∉ text a)
    (hdiffer : separator ≠ stop)
    {items items' : List α} (hitems : items ≠ []) (hitems' : items' ≠ [])
    {rest rest' : List σ}
    (h : [separator].intercalate (items.map text) ++ stop :: rest =
      [separator].intercalate (items'.map text) ++ stop :: rest') :
    items = items' ∧ rest = rest' := by
  induction items generalizing items' with
  | nil => contradiction
  | cons item items ih =>
      obtain ⟨item', items', rfl⟩ := List.exists_cons_of_ne_nil hitems'
      cases items with
      | nil =>
          cases items' with
          | nil =>
              simp only [List.map_cons, List.map_nil,
                List.intercalate_singleton] at h
              obtain ⟨htext, -, hrest⟩ :=
                append_cons_inj (hstop item') (hstop item) h
              rw [hinjective htext]
              exact ⟨rfl, hrest⟩
          | cons next' items' =>
              simp only [List.map_cons, List.map_nil,
                List.intercalate_singleton, List.intercalate_cons_cons,
                List.append_assoc,
                List.cons_append] at h
              obtain ⟨-, hsame, -⟩ :=
                append_cons_inj (hstop item') (hseparator item) h
              exact absurd hsame.symm hdiffer
      | cons next items =>
          cases items' with
          | nil =>
              simp only [List.map_cons, List.map_nil,
                List.intercalate_singleton, List.intercalate_cons_cons,
                List.append_assoc,
                List.cons_append] at h
              obtain ⟨-, hsame, -⟩ :=
                append_cons_inj (hseparator item') (hstop item) h
              exact absurd hsame hdiffer
          | cons next' items' =>
              simp only [List.map_cons, List.intercalate_cons_cons,
                List.append_assoc,
                List.cons_append] at h
              obtain ⟨htext, -, hmore⟩ :=
                append_cons_inj (hseparator item') (hseparator item) h
              obtain ⟨hrestItems, hrest⟩ := ih (List.cons_ne_nil _ _)
                (List.cons_ne_nil next' items') (by simpa using hmore)
              rw [hinjective htext, hrestItems]
              exact ⟨rfl, hrest⟩

theorem uniquelyRead_joined
    (hinjective : Function.Injective text)
    (hseparator : ∀ a, separator ∉ text a) (hstop : ∀ a, stop ∉ text a)
    (hdiffer : separator ≠ stop) :
    UniquelyRead fun items : { items : List α // items ≠ [] } =>
      [separator].intercalate (items.val.map text) ++ [stop] := by
  rintro ⟨items, hitems⟩ ⟨items', hitems'⟩ rest rest' h
  simp only [List.append_assoc, List.singleton_append] at h
  obtain ⟨hsame, hrest⟩ := joined_inj hinjective hseparator hstop hdiffer
    hitems hitems' h
  exact ⟨Subtype.ext hsame, hrest⟩

end Joined

/-! ## Numbered texts -/

section Numbered

variable {entry : ℕ → α → List σ}

/-- The entries of a list, numbered from the one behind `count`. -/
def numbered (entry : ℕ → α → List σ) : ℕ → List α → List σ
  | _, [] => []
  | count, a :: as => entry (count + 1) a ++ numbered entry (count + 1) as

theorem numbered_injective
    (hread : ∀ count, UniquelyRead (entry count))
    (hsome : ∀ count a, entry count a ≠ []) (count : ℕ) :
    Function.Injective (numbered entry count) := by
  intro as
  induction as generalizing count with
  | nil =>
      intro bs h
      cases bs with
      | nil => rfl
      | cons b bs =>
          have hempty := List.append_eq_nil_iff.mp h.symm
          exact absurd hempty.1 (hsome _ b)
  | cons a as ih =>
      intro bs h
      cases bs with
      | nil =>
          have hempty := List.append_eq_nil_iff.mp h
          exact absurd hempty.1 (hsome _ a)
      | cons b bs =>
          obtain ⟨hfirst, hrest⟩ := hread (count + 1) a b _ _ h
          rw [hfirst, ih (count + 1) hrest]

end Numbered

end UniqueReading
