import LakiraBackend.JavaScript.Uri
import Mathlib.Computability.RegularExpressions

/-!
# The app's name

The name is `APP_NAME`, where that is set and not blank, or that of the package without its scope.
One that fails the pattern is refused, wherever it came from, so a name has no dot
(`AppName.no_dot`); any other can be set (`resolveAppName_text`).
-/

namespace LakiraBackend.Config

open LakiraBackend.JavaScript

/-! ### The pattern -/

/-- A class of the characters listed. -/
def oneOf (cs : List Char) : RegularExpression Char := (cs.map RegularExpression.char).sum

def lowerCaseLetters : List Char := "abcdefghijklmnopqrstuvwxyz".toList

/-- The class `[a-z0-9]`. -/
def nameCharacters : List Char := lowerCaseLetters ++ "0123456789".toList

/-- The pattern `^[a-z][a-z0-9]*(-[a-z0-9]+)*$`. -/
def APP_NAME_PATTERN : RegularExpression Char :=
  oneOf lowerCaseLetters * (oneOf nameCharacters).star *
    (.char '-' * (oneOf nameCharacters * (oneOf nameCharacters).star)).star

/-- What a text that matches may be made of. -/
def characters : RegularExpression Char → List Char
  | .zero => []
  | .epsilon => []
  | .char c => [c]
  | .plus P Q => characters P ++ characters Q
  | .comp P Q => characters P ++ characters Q
  | .star P => characters P

theorem mem_characters {P : RegularExpression Char} {s : List Char} {c : Char}
    (hs : s ∈ P.matches') (hc : c ∈ s) : c ∈ characters P := by
  induction P generalizing s with
  | zero => exact hs.elim
  | epsilon =>
    rw [show s = [] from hs] at hc
    cases hc
  | char d =>
    rw [show s = [d] from hs] at hc
    exact hc
  | plus P Q ihP ihQ =>
    rcases (Language.mem_add _ _ _).mp hs with hs | hs
    · exact List.mem_append_left _ (ihP hs hc)
    · exact List.mem_append_right _ (ihQ hs hc)
  | comp P Q ihP ihQ =>
    obtain ⟨a, ha, b, hb, rfl⟩ := Language.mem_mul.mp hs
    rcases List.mem_append.mp hc with hc | hc
    · exact List.mem_append_left _ (ihP ha hc)
    · exact List.mem_append_right _ (ihQ hb hc)
  | star P ih =>
    obtain ⟨parts, rfl, hparts⟩ := Language.mem_kstar.mp hs
    obtain ⟨part, hpart, hc⟩ := List.mem_flatten.mp hc
    exact ih (hparts part hpart) hc

theorem characters_oneOf (cs : List Char) : characters (oneOf cs) = cs := by
  induction cs with
  | nil => rfl
  | cons c cs ih =>
    show c :: characters (oneOf cs) = c :: cs
    rw [ih]

theorem mem_nameCharacters {c : Char} (h : c ∈ characters APP_NAME_PATTERN) :
    c ∈ '-' :: nameCharacters := by
  have hletter : c ∈ lowerCaseLetters → c ∈ nameCharacters := List.mem_append_left _
  have hc : c ∈ lowerCaseLetters ∨ c ∈ nameCharacters ∨ c = '-' ∨ c ∈ nameCharacters := by
    simpa [APP_NAME_PATTERN, characters, characters_oneOf] using h
  rw [List.mem_cons]
  tauto

theorem not_isWhiteSpace_of_mem {c : Char} (h : c ∈ characters APP_NAME_PATTERN) :
    isWhiteSpace c = false := by
  have hprinted : ('-' :: nameCharacters).all (fun c => 33 ≤ c.toNat ∧ c.toNat ≤ 126) = true := by
    decide
  obtain ⟨hlow, hhigh⟩ := of_decide_eq_true
    (List.all_eq_true.mp hprinted c (mem_nameCharacters h))
  simp [isWhiteSpace]
  omega

theorem dot_not_mem_characters : '.' ∉ characters APP_NAME_PATTERN := fun h =>
  absurd (mem_nameCharacters h) (by decide)

/-! ### Names -/

structure AppName : Type where
  text : List Char
  valid : APP_NAME_PATTERN.rmatch text = true

theorem AppName.mem_characters (name : AppName) {c : Char} (hc : c ∈ name.text) :
    c ∈ characters APP_NAME_PATTERN :=
  Config.mem_characters ((RegularExpression.rmatch_iff_matches' _ _).mp name.valid) hc

theorem AppName.no_dot (name : AppName) : '.' ∉ name.text := fun h =>
  dot_not_mem_characters (name.mem_characters h)

theorem AppName.text_ne_nil (name : AppName) : name.text ≠ [] := by
  intro h
  have hvalid := name.valid
  rw [h] at hvalid
  revert hvalid
  decide +kernel

theorem AppName.trimText_text (name : AppName) : trimText name.text = name.text :=
  trimText_of_not_isWhiteSpace fun _ hc => not_isWhiteSpace_of_mem (name.mem_characters hc)

/-- `packageName` without `@` and a name before a slash, trimmed. -/
def withoutScope (packageName : List Char) : List Char :=
  match packageName with
  | '@' :: rest =>
    match rest.dropWhile (· ≠ '/') with
    | '/' :: name => trimText (if rest.head? = some '/' then packageName else name)
    | _ => trimText packageName
  | _ => trimText packageName

def NAME_RULE : String :=
  "It must match ^[a-z][a-z0-9]*(-[a-z0-9]+)*$: lowercase letters and digits, with single " ++
  "hyphens between them, starting with a letter. The name becomes the refresh cookie's name and " ++
  "the queue names."

/-- The name, or the message of the error; `packageName` is what `readPackageName` gives. -/
def resolveAppName (fromEnv : Option (List Char)) (packageName : Except String (List Char)) :
    Except String AppName :=
  let explicit := trimText (fromEnv.getD [])
  if explicit ≠ [] then
    if h : APP_NAME_PATTERN.rmatch explicit = true then .ok ⟨explicit, h⟩
    else .error
      ("APP_NAME \"" ++ String.ofList explicit ++ "\" is not a valid app name. " ++ NAME_RULE)
  else
    packageName.bind fun packageName =>
      let name := withoutScope packageName
      if name = [] then
        .error ("APP_NAME is not set and the package name \"" ++ String.ofList packageName ++
          "\" leaves no name once its scope is dropped. Set APP_NAME.")
      else if h : APP_NAME_PATTERN.rmatch name = true then .ok ⟨name, h⟩
      else .error
        ("The package name \"" ++ String.ofList packageName ++ "\" gives the app name \"" ++
          String.ofList name ++ "\", which is not a valid app name. " ++ NAME_RULE ++
          " Rename the package, or set APP_NAME.")

/-- **A name that is set is taken as it is.** -/
theorem resolveAppName_text (name : AppName) (packageName : Except String (List Char)) :
    resolveAppName (some name.text) packageName = .ok name := by
  simp only [resolveAppName, Option.getD_some, name.trimText_text, if_pos name.text_ne_nil,
    dif_pos name.valid]

/-- The name without `-backend` at its end. -/
def AppName.APP_SHORT_NAME (name : AppName) : String :=
  String.ofList
    (if "-backend".toList <:+ name.text then name.text.take (name.text.length - 8) else name.text)

theorem AppName.dot_not_mem_shortName (name : AppName) : '.' ∉ name.APP_SHORT_NAME.toList := by
  rw [APP_SHORT_NAME, String.toList_ofList]
  split
  · exact fun h => name.no_dot (List.mem_of_mem_take h)
  · exact name.no_dot

/-- The name of a package in a scope. -/
example : (resolveAppName none (.ok "@lakira/lakira-backend".toList)).map AppName.APP_SHORT_NAME =
    .ok "lakira" := by decide +kernel

end LakiraBackend.Config
