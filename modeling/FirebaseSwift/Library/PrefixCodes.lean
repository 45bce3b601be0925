import Mathlib.Data.List.Basic

/-! Codes that end by themselves: where a code is followed by anything, the code word and the rest are
determined. Words of one length and quoted texts have this property. -/

namespace PrefixCodes

variable {α β : Type}

/-- What is read and what is left are determined. -/
def SelfDelimiting (code : α → List β) : Prop :=
  ∀ a a' rest rest', code a ++ rest = code a' ++ rest' → a = a' ∧ rest = rest'

theorem of_length {code : α → List β} {n : Nat} (hlength : ∀ a, (code a).length = n)
    (hinj : Function.Injective code) : SelfDelimiting code := by
  intro a a' rest rest' h
  obtain ⟨hcode, hrest⟩ := List.append_inj h ((hlength a).trans (hlength a').symm)
  exact ⟨hinj hcode, hrest⟩

section Quotes

variable [DecidableEq β] (escape quote : β)

/-- The escape stands before itself and before a quote. -/
def escaped (text : List β) : List β :=
  text.flatMap fun c => if c = escape ∨ c = quote then [escape, c] else [c]

def quoted (text : List β) : List β := quote :: escaped escape quote text ++ [quote]

variable {escape quote}

theorem escaped_append_inj (hne : escape ≠ quote) {text text' rest rest' : List β}
    (h : escaped escape quote text ++ quote :: rest = escaped escape quote text' ++ quote :: rest') :
    text = text' ∧ rest = rest' := by
  have hnil : ∀ {c : β} {text rest rest' : List β},
      quote :: rest ≠ (if c = escape ∨ c = quote then [escape, c] else [c]) ++
        escaped escape quote text ++ quote :: rest' := by
    intro c text rest rest' hquote
    split_ifs at hquote with hspecial
    · exact hne (List.cons.inj hquote).1.symm
    · exact hspecial (Or.inr (List.cons.inj hquote).1.symm)
  induction text generalizing text' with
  | nil =>
      cases text' with
      | nil => exact ⟨rfl, (List.cons.inj h).2⟩
      | cons c text' => exact absurd h hnil
  | cons c text ih =>
      cases text' with
      | nil => exact absurd h.symm hnil
      | cons c' text' =>
          have hsplit : (if c = escape ∨ c = quote then [escape, c] else [c]) ++
              (escaped escape quote text ++ quote :: rest) =
              (if c' = escape ∨ c' = quote then [escape, c'] else [c']) ++
                (escaped escape quote text' ++ quote :: rest') := by
            rw [← List.append_assoc, ← List.append_assoc]
            exact h
          split_ifs at hsplit with hspecial hspecial' hspecial'
          · obtain ⟨rfl, hrest⟩ := List.cons.inj (List.cons.inj hsplit).2
            obtain ⟨rfl, hend⟩ := ih hrest
            exact ⟨rfl, hend⟩
          · exact absurd (Or.inl (List.cons.inj hsplit).1.symm) hspecial'
          · exact absurd (Or.inl (List.cons.inj hsplit).1) hspecial
          · obtain ⟨rfl, hrest⟩ := List.cons.inj hsplit
            obtain ⟨rfl, hend⟩ := ih hrest
            exact ⟨rfl, hend⟩

theorem selfDelimiting_quoted (hne : escape ≠ quote) : SelfDelimiting (quoted escape quote) := by
  intro text text' rest rest' h
  unfold quoted at h
  rw [List.append_assoc, List.append_assoc] at h
  exact escaped_append_inj hne (List.cons.inj h).2

end Quotes

end PrefixCodes
