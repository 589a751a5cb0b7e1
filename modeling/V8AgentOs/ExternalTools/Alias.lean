import Mathlib.Data.List.DropRight
import V8AgentOs.Lib.FreshName
import V8AgentOs.Python.Text

-- runtimes/network_supervisor/openai_compat.py: the internal names of external tools
namespace ExternalTools

open Python

-- `[a-z0-9_]`
def isAliasChar (c : Char) : Bool :=
  ('a' ≤ c && c ≤ 'z') || ('0' ≤ c && c ≤ '9') || c == '_'

-- `_ALIAS_SANITIZE_RE.sub("_", text)`; `inside` says that the character before has been replaced.
def sanitize (inside : Bool) : List Char → List Char
  | []      => []
  | c :: cs =>
    if isAliasChar c then c :: sanitize false cs
    else if inside then sanitize true cs else '_' :: sanitize true cs

-- `re.sub(r"_+", "_", text)`; `inside` says that the character before is an underscore.
def squash (inside : Bool) : List Char → List Char
  | []      => []
  | c :: cs =>
    if c = '_' then if inside then squash true cs else '_' :: squash true cs
    else c :: squash false cs

-- `text.strip("_")`
def stripUnderscores (cs : List Char) : List Char :=
  (cs.dropWhile (· == '_')).rdropWhile (· == '_')

def maxAliasStem : ℕ :=
  36

def slugifyToolName (text : Text) (name : String) : List Char :=
  let normalized := stripUnderscores (squash false (sanitize false (text.lower (strip name)).toList))
  let normalized := if normalized.isEmpty then "tool".toList else normalized
  let stem := stripUnderscores (normalized.take maxAliasStem)
  if stem.isEmpty then "tool".toList else stem

def aliasBase (text : Text) (wireName : String) : List Char :=
  "network_".toList ++ slugifyToolName text wireName

-- `f"{base[: max(1, 48 - len(suffix))]}{suffix}"`
def aliasCandidate (base : List Char) (index : ℕ) : List Char :=
  let suffix := '_' :: Nat.toDigits 10 index
  base.take (max 1 (48 - suffix.length)) ++ suffix

-- `_unique_internal_alias_name`. There are more candidates than names that have been seen.
def uniqueInternalAliasName (text : Text) (wireName : String) (seen : List String) : String :=
  let base := String.ofList (aliasBase text wireName)
  if base ∈ seen then
    FreshName.search (fun index => String.ofList (aliasCandidate (aliasBase text wireName) index)) seen seen.length 2
  else base

variable {text : Text} {wireName : String} {seen : List String} {base cs : List Char} {c : Char} {index index' : ℕ}

theorem isAliasChar_sanitize {inside : Bool} : ∀ c ∈ sanitize inside cs, isAliasChar c := by
  induction cs generalizing inside
  case nil => simp [sanitize]
  case cons d cs hi =>
    unfold sanitize
    have hunderscore : isAliasChar '_' := by decide
    split_ifs with hd
    case pos => simpa [hd] using fun c hc => hi c hc
    case pos => exact hi
    case neg => simpa [hunderscore] using fun c hc => hi c hc

theorem squash_subset {inside : Bool} : squash inside cs ⊆ cs := by
  induction cs generalizing inside
  case nil => simp [squash]
  case cons d cs hi =>
    unfold squash
    split_ifs with hd
    case pos => exact List.subset_cons_of_subset _ hi
    case neg =>
      rw [hd]
      exact List.cons_subset_cons _ hi
    case neg => exact List.cons_subset_cons _ hi

theorem stripUnderscores_subset : stripUnderscores cs ⊆ cs :=
  List.Subset.trans (List.rdropWhile_prefix _ _).subset (List.dropWhile_suffix _).subset

theorem isAliasChar_slugify : ∀ c ∈ slugifyToolName text wireName, isAliasChar c := by
  have htool : ∀ c ∈ "tool".toList, isAliasChar c := by
    have hall : "tool".toList.all isAliasChar := by decide
    exact List.all_eq_true.mp hall
  unfold slugifyToolName
  dsimp only
  intro c hc
  split_ifs at hc with hempty hstem hstem
  case pos => exact htool c hc
  case neg => exact htool c (List.mem_of_mem_take (stripUnderscores_subset hc))
  case pos => exact htool c hc
  case neg =>
    have hmem := List.mem_of_mem_take (stripUnderscores_subset hc)
    exact isAliasChar_sanitize c (squash_subset (stripUnderscores_subset hmem))

theorem isAliasChar_of_digit (h : c ∈ Nat.toDigits 10 index) : isAliasChar c ∧ c ≠ '_' := by
  have hdigit := Char.isDigit_iff_toNat.mp (Nat.isDigit_of_mem_toDigits (by decide) (by decide) h)
  have hne : c ≠ '_' := by
    rintro rfl
    simp at hdigit
  have hrange : '0' ≤ c ∧ c ≤ '9' := by
    constructor
    case left => exact Char.le_def.mpr (UInt32.le_iff_toNat_le.mpr hdigit.1)
    case right => exact Char.le_def.mpr (UInt32.le_iff_toNat_le.mpr hdigit.2)
  exact ⟨by simp [isAliasChar, hrange], hne⟩

-- The number is what stands behind the last underscore.
theorem aliasCandidate_injective (base : List Char) :
    Function.Injective fun index => String.ofList (aliasCandidate base index) := by
  have hnumber (index : ℕ) : (aliasCandidate base index).rtakeWhile (· ≠ '_') = Nat.toDigits 10 index := by
    have hdigits : ∀ c ∈ (Nat.toDigits 10 index).reverse, decide (c ≠ '_') := by
      intro c hc
      simpa using (isAliasChar_of_digit (List.mem_reverse.mp hc)).2
    unfold aliasCandidate
    dsimp only
    rw [List.rtakeWhile, List.reverse_append, List.reverse_cons, List.append_assoc,
      List.takeWhile_append_of_pos hdigits]
    simp
  intro index index' heq
  have hlist := String.ofList_injective heq
  have hdigits : Nat.toDigits 10 index = Nat.toDigits 10 index' := by
    rw [← hnumber, ← hnumber, hlist]
  have hvalue := congrArg (Nat.ofDigitChars 10 · 0) hdigits
  simpa only [Nat.ofDigitChars_ten_toDigits] using hvalue

theorem uniqueInternalAliasName_fresh (text : Text) (wireName : String) (seen : List String) :
    uniqueInternalAliasName text wireName seen ∉ seen := by
  unfold uniqueInternalAliasName
  dsimp only
  split_ifs with h
  case pos => exact FreshName.search_fresh (aliasCandidate_injective _) le_rfl
  case neg => exact h

-- What is said of a list of characters holds of an alias if it holds of the base and of all candidates.
theorem unique_cases {P : List Char → Prop} (hbase : P (aliasBase text wireName))
    (hcandidate : ∀ index, P (aliasCandidate (aliasBase text wireName) index)) :
    P (uniqueInternalAliasName text wireName seen).toList := by
  unfold uniqueInternalAliasName
  dsimp only
  split_ifs
  case neg => rwa [String.toList_ofList]
  case pos =>
    obtain ⟨k, heq⟩ := FreshName.search_eq (fun index => String.ofList (aliasCandidate (aliasBase text wireName) index))
      seen seen.length 2
    rw [heq, String.toList_ofList]
    exact hcandidate _

-- An alias is made of the characters that are kept.
theorem isAliasChar_unique : ∀ c ∈ (uniqueInternalAliasName text wireName seen).toList, isAliasChar c := by
  have hbase : ∀ c ∈ aliasBase text wireName, isAliasChar c := by
    intro c hc
    cases List.mem_append.mp hc
    case inl hc =>
      have hall : "network_".toList.all isAliasChar := by decide
      exact List.all_eq_true.mp hall c hc
    case inr hc => exact isAliasChar_slugify c hc
  apply unique_cases (P := fun cs => ∀ c ∈ cs, isAliasChar c) hbase
  intro index c hc
  cases List.mem_append.mp hc
  case inl hc => exact hbase c (List.mem_of_mem_take hc)
  case inr hc =>
    cases List.mem_cons.mp hc
    case inl heq =>
      rw [heq]
      decide
    case inr hc => exact (isAliasChar_of_digit hc).1

theorem uniqueInternalAliasName_ne : uniqueInternalAliasName text wireName seen ≠ "" := by
  have hne : (uniqueInternalAliasName text wireName seen).toList ≠ [] := by
    apply unique_cases (P := fun cs => cs ≠ [])
    case hbase => exact List.cons_ne_nil _ _
    case hcandidate => exact fun index => List.append_ne_nil_of_right_ne_nil _ (List.cons_ne_nil _ _)
  simpa using hne

theorem not_space_of_isAliasChar (h : isAliasChar c) : ¬isSpace c := by
  have hrange : (97 ≤ c.toNat ∧ c.toNat ≤ 122) ∨ (48 ≤ c.toNat ∧ c.toNat ≤ 57) ∨ c.toNat = 95 := by
    simp only [isAliasChar, Bool.or_eq_true, Bool.and_eq_true, decide_eq_true_eq, beq_iff_eq, or_assoc] at h
    apply h.imp_right
    apply Or.imp_right
    rintro rfl
    rfl
  simp only [isSpace, Bool.or_eq_true, Bool.and_eq_true, decide_eq_true_eq, beq_iff_eq]
  omega

theorem strip_unique :
    strip (uniqueInternalAliasName text wireName seen) = uniqueInternalAliasName text wireName seen :=
  strip_eq_self fun c hc => not_space_of_isAliasChar (isAliasChar_unique c hc)

end ExternalTools
