import FirebaseSwift.Database.Node
import FirebaseSwift.Library.PrefixCodes
import FirebaseSwift.Library.UnicodeStrings

/-! The text that is hashed for a leaf, `FSnapshotUtilities.appendHashRepresentation` in its second version.
A value is hashed by its form: numbers are doubles. The texts of leaves end by themselves where strings are
escaped literally, so that they can be read back. -/

namespace FirebaseSwift.Database

open UnicodeStrings PrefixCodes

/-- What a value is hashed as. A number is the bits of its double. -/
inductive ValueForm where
  | boolean (v : Bool)
  | number (bits : BitVec 64)
  | string (v : List Char)
  | deferredValue
deriving DecidableEq

/-- The form of a value is determined by its case and its `doubleValue`. -/
class HashedValue (V : Type) where
  form : V → ValueForm

instance : HashedValue ValueForm where
  form := id

/-- The text of a key. -/
class KeyText (K : Type) where
  text : K → List Char
  text_injective : Function.Injective text

instance : KeyText String where
  text := String.toList
  text_injective := fun _ _ => String.toList_injective

namespace FUtilities

/-- The bytes of the double, the highest first, with two digits each. -/
def ieee754String (bits : BitVec 64) : List Char :=
  (List.range 16).map fun i => Nat.digitChar (bits.extractLsb' (4 * (15 - i)) 4).toNat

theorem length_ieee754String (bits : BitVec 64) : (ieee754String bits).length = 16 := by
  rw [ieee754String, List.length_map, List.length_range]

theorem digitChar_inj : ∀ n < 16, ∀ m < 16, Nat.digitChar n = Nat.digitChar m → n = m := by decide

theorem ieee754String_injective : Function.Injective ieee754String := by
  intro bits bits' h
  have hnibble : ∀ i < 16, bits.extractLsb' (4 * (15 - i)) 4 = bits'.extractLsb' (4 * (15 - i)) 4 := by
    intro i hi
    have hdigit := List.map_inj_left.mp h i (List.mem_range.mpr hi)
    exact BitVec.eq_of_toNat_eq (digitChar_inj _ (BitVec.isLt _) _ (BitVec.isLt _) hdigit)
  refine BitVec.eq_of_getLsbD_eq fun i hi => ?_
  have hbit := congrArg (fun nibble => BitVec.getLsbD nibble (i % 4)) (hnibble (15 - i / 4) (by omega))
  have hindex : 4 * (15 - (15 - i / 4)) + i % 4 = i := by omega
  simpa only [BitVec.getLsbD_extractLsb', hindex, Nat.mod_lt i (by decide : 0 < 4), decide_true,
    Bool.true_and] using hbit

end FUtilities

namespace FSnapshotUtilities

def priorityLabel : List Char := ['p', 'r', 'i', 'o', 'r', 'i', 't', 'y', ':']

def booleanLabel : List Char := ['b', 'o', 'o', 'l', 'e', 'a', 'n', ':']

def numberLabel : List Char := ['n', 'u', 'm', 'b', 'e', 'r', ':']

def stringLabel : List Char := ['s', 't', 'r', 'i', 'n', 'g', ':']

/-! ### Strings -/

section Strings

variable [UnicodeVersion]

/-- All characters that are the target are replaced. -/
def replacingOccurrences (target : Char) (replacement text : List Char) : List Char :=
  (characters text).flatMap fun c => if Equivalent c [target] then replacement else c

def appendHashV2Representation (string output : List Char) : List Char :=
  output ++ '"' ::
    replacingOccurrences '"' ['\\', '"'] (replacingOccurrences '\\' ['\\', '\\'] string) ++ ['"']

/-- The backslashes and quotes of the string are characters of their own, so that they are all escaped. -/
def EscapesLiterally (string : List Char) : Prop :=
  replacingOccurrences '"' ['\\', '"'] (replacingOccurrences '\\' ['\\', '\\'] string) =
    escaped '\\' '"' string

theorem appendHashV2Representation_eq {string : List Char} (h : EscapesLiterally string)
    (output : List Char) : appendHashV2Representation string output = output ++ quoted '\\' '"' string := by
  unfold appendHashV2Representation
  rw [h]
  exact List.append_assoc output _ _

theorem replacingOccurrences_of_isAscii {target : Char} (htarget : IsAscii target) (replacement : List Char)
    {text : List Char} (htext : ∀ c ∈ text, IsAscii c ∧ c ≠ '\r') : replacingOccurrences target replacement text =
      text.flatMap fun c => if c = target then replacement else [c] := by
  rw [replacingOccurrences, characters_of_isAscii text htext, List.flatMap_map]
  refine List.flatMap_congr fun c hc => if_congr ?_ rfl rfl
  unfold Equivalent
  rw [nfc_singleton (htext c hc).1, nfc_singleton htarget, List.singleton_inj]

/-- In ASCII text all backslashes and quotes are escaped. -/
theorem escapesLiterally_of_isAscii {string : List Char} (h : ∀ c ∈ string, IsAscii c ∧ c ≠ '\r') :
    EscapesLiterally string := by
  have hbackslashes : ∀ c ∈ string.flatMap fun c => if c = '\\' then ['\\', '\\'] else [c],
      IsAscii c ∧ c ≠ '\r' := by
    intro c hc
    obtain ⟨d, hd, hmem⟩ := List.mem_flatMap.mp hc
    split_ifs at hmem
    · have hsame : c = '\\' := by simpa using hmem
      rw [hsame]
      decide
    · exact List.mem_singleton.mp hmem ▸ h d hd
  unfold EscapesLiterally
  rw [replacingOccurrences_of_isAscii (by decide) _ h, replacingOccurrences_of_isAscii (by decide) _ hbackslashes,
    List.flatMap_assoc]
  refine List.flatMap_congr fun c _ => ?_
  by_cases hbackslash : c = '\\'
  · subst hbackslash
    rfl
  · by_cases hquote : c = '"'
    · subst hquote
      rfl
    · simp [hbackslash, hquote]

theorem appendHashV2Representation_append (string output : List Char) :
    appendHashV2Representation string output = output ++ appendHashV2Representation string [] := by
  unfold appendHashV2Representation
  rw [List.nil_append, List.append_assoc]

end Strings

/-! ### Leaves -/

section Leaves

variable {K V : Type} [UnicodeVersion] [HashedValue V]

/-- The program stops at a deferred value. -/
def appendValue : ValueForm → List Char → Option (List Char)
  | .boolean v, output => some (output ++ booleanLabel ++ if v then ['t', 'r', 'u', 'e'] else ['f', 'a', 'l', 's', 'e'])
  | .number bits, output => some (output ++ numberLabel ++ FUtilities.ieee754String bits)
  | .string v, output => some (appendHashV2Representation v (output ++ stringLabel))
  | .deferredValue, _ => none

/-- The guard leaves out what is no leaf. -/
def appendHashRepresentation : NodeData K V → List Char → Option (List Char)
  | .leaf leafValue priority, output => do
      let output ←
        if priority.isEmpty then some output
        else (appendHashRepresentation priority (output ++ priorityLabel)).map (· ++ [':'])
      appendValue (HashedValue.form leafValue) output
  | .empty, output => some output
  | .children _ _, output => some output

end Leaves

end FSnapshotUtilities

/-- What a leaf is hashed as. A priority that is no leaf has no text. -/
inductive LeafForm where
  | notLeaf
  | value (v : ValueForm)
  | withPriority (priority : LeafForm) (v : ValueForm)
deriving DecidableEq

namespace LeafForm

open FSnapshotUtilities

def ofNode {K V : Type} [HashedValue V] : NodeData K V → LeafForm
  | .leaf leafValue priority =>
      if priority.isEmpty then .value (HashedValue.form leafValue)
      else .withPriority (ofNode priority) (HashedValue.form leafValue)
  | .empty => .notLeaf
  | .children _ _ => .notLeaf

def All (condition : ValueForm → Prop) : LeafForm → Prop
  | notLeaf => True
  | value v => condition v
  | withPriority priority v => priority.All condition ∧ condition v

/-- Without a deferred value -/
def Resolved (form : LeafForm) : Prop := form.All (· ≠ .deferredValue)

variable [UnicodeVersion]

def valueText : ValueForm → List Char
  | .boolean v => booleanLabel ++ if v then ['t', 'r', 'u', 'e'] else ['f', 'a', 'l', 's', 'e']
  | .number bits => numberLabel ++ FUtilities.ieee754String bits
  | .string v => stringLabel ++ FSnapshotUtilities.appendHashV2Representation v []
  | .deferredValue => []

def text : LeafForm → List Char
  | notLeaf => []
  | value v => valueText v
  | withPriority priority v => priorityLabel ++ priority.text ++ [':'] ++ valueText v

end LeafForm

section Texts

variable {K V : Type} [UnicodeVersion] [HashedValue V]

theorem appendValue_eq {v : ValueForm} (h : v ≠ .deferredValue) (output : List Char) :
    FSnapshotUtilities.appendValue v output = some (output ++ LeafForm.valueText v) := by
  cases v with
  | boolean v => exact congrArg some (List.append_assoc _ _ _)
  | number bits => exact congrArg some (List.append_assoc _ _ _)
  | string v =>
      refine congrArg some ?_
      rw [FSnapshotUtilities.appendHashV2Representation_append, List.append_assoc]
      rfl
  | deferredValue => exact absurd rfl h

theorem appendValue_eq_none {v : ValueForm} (h : ¬v ≠ .deferredValue) (output : List Char) :
    FSnapshotUtilities.appendValue v output = none := by
  rw [not_not.mp h]
  rfl

theorem appendHashRepresentation_eq : ∀ {node : NodeData K V}, (LeafForm.ofNode node).Resolved →
    ∀ output, FSnapshotUtilities.appendHashRepresentation node output =
      some (output ++ (LeafForm.ofNode node).text)
  | .empty, _, output => congrArg some (List.append_nil output).symm
  | .children _ _, _, output => congrArg some (List.append_nil output).symm
  | .leaf leafValue priority, h, output => by
      unfold FSnapshotUtilities.appendHashRepresentation
      unfold LeafForm.ofNode at h ⊢
      split_ifs at h ⊢ with hpriority
      · rw [Option.bind_eq_bind, Option.bind_some]
        exact appendValue_eq h output
      · obtain ⟨hresolved, hvalue⟩ : (LeafForm.ofNode priority).Resolved ∧
            HashedValue.form leafValue ≠ .deferredValue := h
        rw [appendHashRepresentation_eq hresolved, Option.map_some, Option.bind_eq_bind, Option.bind_some]
        refine (appendValue_eq hvalue _).trans (congrArg some ?_)
        rw [LeafForm.text]
        simp only [List.append_assoc]

theorem appendHashRepresentation_eq_none : ∀ {node : NodeData K V}, ¬(LeafForm.ofNode node).Resolved →
    ∀ output, FSnapshotUtilities.appendHashRepresentation node output = none
  | .empty, h, _ => absurd trivial h
  | .children _ _, h, _ => absurd trivial h
  | .leaf leafValue priority, h, output => by
      unfold FSnapshotUtilities.appendHashRepresentation
      unfold LeafForm.ofNode at h
      split_ifs at h ⊢ with hpriority
      · rw [Option.bind_eq_bind, Option.bind_some]
        exact appendValue_eq_none h output
      · by_cases hresolved : (LeafForm.ofNode priority).Resolved
        · rw [appendHashRepresentation_eq hresolved, Option.map_some, Option.bind_eq_bind, Option.bind_some]
          exact appendValue_eq_none (fun hvalue => h ⟨hresolved, hvalue⟩) _
        · rw [appendHashRepresentation_eq_none hresolved]
          rfl

/-! ### Texts end by themselves -/

end Texts

section Injectivity

open FSnapshotUtilities

variable [UnicodeVersion]

/-- The value has a text that can be read. -/
def ValueForm.Readable (v : ValueForm) : Prop :=
  v ≠ .deferredValue ∧ ∀ string, v = .string string → FSnapshotUtilities.EscapesLiterally string

theorem valueText_string {string : List Char} (h : FSnapshotUtilities.EscapesLiterally string) :
    LeafForm.valueText (.string string) = stringLabel ++ quoted '\\' '"' string := by
  rw [LeafForm.valueText, FSnapshotUtilities.appendHashV2Representation_eq h, List.nil_append]

theorem head?_valueText {v : ValueForm} (h : v ≠ .deferredValue) (rest : List Char) :
    (LeafForm.valueText v ++ rest).head? = match v with
      | .boolean _ => some 'b'
      | .number _ => some 'n'
      | .string _ => some 's'
      | .deferredValue => none := by
  cases v with
  | boolean v =>
      rw [LeafForm.valueText, List.append_assoc]
      rfl
  | number bits =>
      rw [LeafForm.valueText, List.append_assoc]
      rfl
  | string v =>
      rw [LeafForm.valueText, List.append_assoc]
      rfl
  | deferredValue => exact absurd rfl h

theorem valueText_append_inj {v v' : ValueForm} (h : v.Readable) (h' : v'.Readable) {rest rest' : List Char}
    (htext : LeafForm.valueText v ++ rest = LeafForm.valueText v' ++ rest') : v = v' ∧ rest = rest' := by
  have hhead := congrArg List.head? htext
  rw [head?_valueText h.1, head?_valueText h'.1] at hhead
  cases v with
  | boolean v =>
      cases v' with
      | boolean v' =>
          rw [LeafForm.valueText, LeafForm.valueText, List.append_assoc, List.append_assoc] at htext
          have hsuffix := List.append_cancel_left htext
          cases v <;> cases v'
          · exact ⟨rfl, List.append_cancel_left hsuffix⟩
          · cases hsuffix
          · cases hsuffix
          · exact ⟨rfl, List.append_cancel_left hsuffix⟩
      | number bits => cases hhead
      | string v' => cases hhead
      | deferredValue => exact absurd rfl h'.1
  | number bits =>
      cases v' with
      | boolean v' => cases hhead
      | number bits' =>
          rw [LeafForm.valueText, LeafForm.valueText, List.append_assoc, List.append_assoc] at htext
          obtain ⟨hbits, hrest⟩ := of_length FUtilities.length_ieee754String
            FUtilities.ieee754String_injective _ _ _ _ (List.append_cancel_left htext)
          exact ⟨congrArg ValueForm.number hbits, hrest⟩
      | string v' => cases hhead
      | deferredValue => exact absurd rfl h'.1
  | string v =>
      cases v' with
      | boolean v' => cases hhead
      | number bits => cases hhead
      | string v' =>
          rw [valueText_string (h.2 v rfl), valueText_string (h'.2 v' rfl), List.append_assoc,
            List.append_assoc] at htext
          obtain ⟨hstring, hrest⟩ := selfDelimiting_quoted (by decide) _ _ _ _ (List.append_cancel_left htext)
          exact ⟨congrArg ValueForm.string hstring, hrest⟩
      | deferredValue => exact absurd rfl h'.1
  | deferredValue => exact absurd rfl h.1

theorem head?_text {form : LeafForm} (hform : form ≠ .notLeaf) (h : form.Resolved) (rest : List Char) :
    (form.text ++ rest).head? ≠ some ':' := by
  cases form with
  | notLeaf => exact absurd rfl hform
  | value v =>
      rw [LeafForm.text, head?_valueText h]
      cases v with
      | deferredValue => exact absurd rfl h
      | boolean v => exact nofun
      | number bits => exact nofun
      | string v => exact nofun
  | withPriority priority v =>
      rw [LeafForm.text, List.append_assoc, List.append_assoc, List.append_assoc]
      exact nofun

/-- The texts of leaves end by themselves. -/
theorem text_append_inj {form form' : LeafForm} (hform : form ≠ .notLeaf) (hform' : form' ≠ .notLeaf)
    (h : form.All ValueForm.Readable) (h' : form'.All ValueForm.Readable) {rest rest' : List Char}
    (htext : form.text ++ rest = form'.text ++ rest') : form = form' ∧ rest = rest' := by
  have hresolved : ∀ {form : LeafForm}, form.All ValueForm.Readable → form.Resolved := by
    intro form hall
    induction form with
    | notLeaf => trivial
    | value v => exact hall.1
    | withPriority priority v ih => exact ⟨ih hall.1, hall.2.1⟩
  induction form generalizing form' rest rest' with
  | notLeaf => exact absurd rfl hform
  | value v =>
      cases form' with
      | notLeaf => exact absurd rfl hform'
      | value v' =>
          obtain ⟨rfl, hrest⟩ := valueText_append_inj h h' htext
          exact ⟨rfl, hrest⟩
      | withPriority priority' v' =>
          have hhead := congrArg List.head? htext
          rw [LeafForm.text, LeafForm.text, head?_valueText h.1, List.append_assoc, List.append_assoc,
            List.append_assoc] at hhead
          cases v <;> cases hhead
  | withPriority priority v ih =>
      cases form' with
      | notLeaf => exact absurd rfl hform'
      | value v' =>
          have hhead := congrArg List.head? htext
          rw [LeafForm.text, LeafForm.text, head?_valueText h'.1, List.append_assoc, List.append_assoc,
            List.append_assoc] at hhead
          cases v' <;> cases hhead
      | withPriority priority' v' =>
          rw [LeafForm.text, LeafForm.text] at htext
          simp only [List.append_assoc] at htext
          have hbody := List.append_cancel_left htext
          have hvalues : ∀ {rest rest' : List Char},
              [':'] ++ (LeafForm.valueText v ++ rest) = [':'] ++ (LeafForm.valueText v' ++ rest') →
                v = v' ∧ rest = rest' :=
            fun hboth => valueText_append_inj h.2 h'.2 (List.append_cancel_left hboth)
          by_cases hpriority : priority = .notLeaf
          · by_cases hpriority' : priority' = .notLeaf
            · rw [hpriority, hpriority'] at hbody ⊢
              obtain ⟨rfl, hrest⟩ := hvalues hbody
              exact ⟨rfl, hrest⟩
            · rw [hpriority] at hbody
              exact absurd (congrArg List.head? hbody).symm (head?_text hpriority' (hresolved h'.1) _)
          · by_cases hpriority' : priority' = .notLeaf
            · rw [hpriority'] at hbody
              exact absurd (congrArg List.head? hbody) (head?_text hpriority (hresolved h.1) _)
            · obtain ⟨rfl, hboth⟩ := ih hpriority hpriority' h.1 h'.1 hbody
              obtain ⟨rfl, hrest⟩ := hvalues hboth
              exact ⟨rfl, hrest⟩

end Injectivity

end FirebaseSwift.Database
