import TagTemplate.Options.Load
import TagTemplate.Proofs.Messages
import TagTemplate.Proofs.Utf8

/-!
# What the user is told of a file of options

A file of options goes through three layers: it is read, its text is taken for YAML, and what that
says is checked. Whatever goes wrong in one of them is told under the path of the file, with two
exceptions. Bytes that are not UTF-8 are told of nowhere, and neither is a fault whose message would
have to show a value that cannot be written. All of this holds for any reader of YAML.
-/

namespace TagTemplate

/-- Holds of the errors that have a message. -/
def LoadError.HasMessage : LoadError → Prop
  | unreadable _ => True
  | notText => False
  | notYaml _ => True
  | invalid e => ∀ value ∈ e.shown, value.IsWritable

/-- A message has the path in front of it. -/
theorem LoadError.hasMessage_iff {e : LoadError} (path : String) :
    e.HasMessage ↔ ∃ text, e.message? path = some (path ++ ": " ++ text) := by
  cases e with
  | unreadable error =>
    refine iff_of_true trivial ⟨"cannot read options file: " ++ error.message path, ?_⟩
    rw [message?, String.append_assoc, String.append_assoc]
    rfl
  | notText => exact iff_of_false id nofun
  | notYaml reason =>
    refine iff_of_true trivial ⟨"invalid YAML: " ++ reason, ?_⟩
    rw [message?, String.append_assoc, String.append_assoc]
    rfl
  | invalid error =>
    rw [HasMessage, ← error.isSome_message?, message?]
    cases error.message? <;> simp

namespace Options

/-- Holds where a file gives options, or an error that the user is told of under its path. -/
def Told (read : SettingsReader) (path : String) (file : File) : Prop :=
  (∃ options, load read file = .ok options) ∨
    ∃ e text, load read file = .error e ∧ e.message? path = some (path ++ ": " ++ text)

/-- What may go wrong with a file, layer by layer. -/
inductive Fails (read : SettingsReader) : File → LoadError → Prop
  | unreadable {file : File} {error : FileError} : file.read = .error error →
      Fails read file (.unreadable error)
  | notText {content : Bytes} : ¬Utf8.WellFormed content → Fails read (.regular content) .notText
  | notYaml {text : List Char} {reason : String} :
      read (String.ofList (normalizeLines text)) = .error reason →
      Fails read (.regular (Utf8.encode text)) (.notYaml reason)
  | invalid {text : List Char} {data : Value} {e : OptionsError} :
      read (String.ofList (normalizeLines text)) = .ok data → ofValue data = .error e →
      Fails read (.regular (Utf8.encode text)) (.invalid e)

variable {read : SettingsReader} {path : String} {file : File} {e : LoadError}

theorem elim_bind {α β ε : Type} (a? : Option α) (e : ε) (f : α → Except ε β) :
    (a?.elim (.error e) .ok >>= f) = a?.elim (.error e) f := by
  cases a? <;> rfl

theorem load_regular (content : Bytes) :
    load read (.regular content) =
      (Utf8.decode? content).elim (.error .notText) fun text =>
        (read (String.ofList (normalizeLines text))).mapError .notYaml >>= fun data =>
          (ofValue data).mapError .invalid :=
  elim_bind (Utf8.decode? content) _ _

theorem load_encode (text : List Char) :
    load read (.regular (Utf8.encode text)) =
      ((read (String.ofList (normalizeLines text))).mapError .notYaml >>= fun data =>
        (ofValue data).mapError .invalid) := by
  rw [load_regular, Utf8.decode?_eq_some_iff.mpr rfl, Option.elim_some]

theorem Fails.load_eq (h : Fails read file e) : load read file = .error e := by
  cases h with
  | unreadable hFile =>
    cases file with
    | regular content => cases hFile
    | _ =>
      cases hFile
      rfl
  | notText hText => rw [load_regular, Utf8.decode?_eq_none_iff.mpr hText, Option.elim_none]
  | notYaml hRead =>
    rw [load_encode, hRead]
    rfl
  | invalid hRead hData =>
    rw [load_encode, hRead]
    exact congrArg (Except.mapError LoadError.invalid) hData

theorem fails_of_load_encode {text : List Char}
    (h : load read (.regular (Utf8.encode text)) = .error e) :
    Fails read (.regular (Utf8.encode text)) e := by
  rw [load_encode] at h
  cases hRead : read (String.ofList (normalizeLines text)) with
  | error reason =>
    rw [hRead] at h
    cases h
    exact .notYaml hRead
  | ok data =>
    rw [hRead] at h
    change (ofValue data).mapError .invalid = .error e at h
    cases hData : ofValue data with
    | ok options =>
      rw [hData] at h
      cases h
    | error error =>
      rw [hData] at h
      cases h
      exact .invalid hRead hData

theorem fails_of_load (h : load read file = .error e) : Fails read file e := by
  cases file with
  | missing =>
    cases h
    exact .unreadable rfl
  | directory =>
    cases h
    exact .unreadable rfl
  | regular content =>
    by_cases hText : Utf8.WellFormed content
    · obtain ⟨text, rfl⟩ := hText
      exact fails_of_load_encode h
    · rw [load_regular, Utf8.decode?_eq_none_iff.mpr hText] at h
      cases h
      exact .notText hText

theorem load_eq_error_iff : load read file = .error e ↔ Fails read file e :=
  ⟨fails_of_load, Fails.load_eq⟩

theorem told_iff_hasMessage : Told read path file ↔ ∀ e, Fails read file e → e.HasMessage := by
  simp only [← load_eq_error_iff, Told, LoadError.hasMessage_iff path]
  cases load read file <;> simp

/-- The user is told of all files but those whose bytes are not UTF-8, and those that are refused
for a value that is not written. -/
theorem told_iff (read : SettingsReader) (path : String) (file : File) :
    Told read path file ↔ ∀ content, file = .regular content →
      ∃ text, content = Utf8.encode text ∧
        ∀ data e, read (String.ofList (normalizeLines text)) = .ok data → ofValue data = .error e →
          ∀ value ∈ e.shown, value.IsWritable := by
  rw [told_iff_hasMessage]
  constructor
  · rintro h content rfl
    by_cases hText : Utf8.WellFormed content
    · obtain ⟨text, rfl⟩ := hText
      exact ⟨text, rfl, fun data e hRead hData => h _ (.invalid hRead hData)⟩
    · exact absurd (h _ (.notText hText)) id
  · rintro h e hFails
    cases hFails with
    | unreadable => trivial
    | notText hText =>
      obtain ⟨text, rfl, -⟩ := h _ rfl
      exact hText ⟨text, rfl⟩
    | notYaml => trivial
    | @invalid text data error hRead hData =>
      obtain ⟨text', hEncode, hWritable⟩ := h _ rfl
      have hDecode := Utf8.decode?_eq_some_iff.mpr hEncode
      rw [Utf8.decode?_eq_some_iff.mpr rfl] at hDecode
      obtain rfl := Option.some.inj hDecode
      exact hWritable data error hRead hData

/-- A byte that starts no character, and a sigil that is a number of too many digits. -/
theorem not_told_lone_byte_nor_overlong_sigil :
    ¬Told (fun _ => .ok .null) "leaf.yaml" (.regular [0xFF]) ∧
      ¬Told (fun _ => .ok (.mapping [(.text "sigil", .int (Nat.pow 10 Decimal.maxDigits))]))
        "leaf.yaml" (.regular []) := by
  simp only [told_iff_hasMessage]
  constructor
  · intro h
    have hLoad : load (fun _ => .ok .null) (.regular [0xFF]) = .error .notText := by
      with_unfolding_all rfl
    exact h _ (load_eq_error_iff.mp hLoad)
  · intro h
    have hMessage := h _ (@Fails.invalid _ [] _ _ rfl rfl)
    exact Value.not_isWritable_of_le (Nat.le_refl _) (hMessage _ List.mem_cons_self)

end Options

end TagTemplate
