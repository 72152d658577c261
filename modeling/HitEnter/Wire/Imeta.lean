import HitEnter.Lib.Rows
import HitEnter.Wire.Build
import HitEnter.Wire.Message

/-! The files of a message read back from its `imeta` rows. -/

namespace HitEnter.Wire

open Lib.Decimal Lib.Rows

/-! ### Fields -/

/-- A field's own value. -/
theorem imetaField_here {field key value : String} {rest : List String} (own : field = key ++ " " ++ value) :
    imetaField (field :: rest) key = some value := by
  rw [own, String.append_assoc]
  simp [imetaField]

/-- A field that starts with another letter is passed over. -/
theorem imetaField_pass {start key value : String} {rest : List String} {c d : Char} {cs ds : List Char}
    (first : start.toList = c :: cs) (wanted : key.toList = d :: ds) (other : d ≠ c) :
    imetaField ((start ++ value) :: rest) key = imetaField rest key := by
  have none_ : stripStart key (start ++ value) = none := by
    refine stripStart_of_head ?_ (by simp [wanted])
    simp [first, wanted, other]
  simp [imetaField, none_]

/-! ### Files -/

namespace Attachment

/-- What comes after `imeta`. -/
def fields (a : Attachment) : List String :=
  ["url " ++ blobUrl ++ a.hash, "m " ++ a.mime, "x " ++ a.sha256, "size " ++ a.size.toNat.repr, "name " ++ a.name]

def toTag (a : Attachment) : Tag := "imeta" :: a.fields

end Attachment

/-- A chat message, with files. -/
def messageWith [Nostr] (group : PublicKey) (channel text : String) (attachments : List Attachment)
    (person : PublicKey) (date : Timestamp) : Event :=
  signed person date chatMessage ([Draft.h group, ["channel", channel]] ++ attachments.map Attachment.toTag) text

/-- Each field is found, whatever stands in the others. -/
theorem parseAttachment_fields {a : Attachment} (valid : a.isValid = true) : parseAttachment a.fields = some a := by
  have url : imetaField a.fields "url" = some (blobUrl ++ a.hash) :=
    imetaField_here (by rw [String.append_assoc]; rfl)
  have mime : imetaField a.fields "m" = some a.mime := by
    rw [Attachment.fields, String.append_assoc, imetaField_pass rfl rfl (by decide)]
    exact imetaField_here rfl
  have sha256 : imetaField a.fields "x" = some a.sha256 := by
    rw [Attachment.fields, String.append_assoc, imetaField_pass rfl rfl (by decide), imetaField_pass rfl rfl (by decide)]
    exact imetaField_here rfl
  have size : imetaField a.fields "size" = some a.size.toNat.repr := by
    rw [Attachment.fields, String.append_assoc, imetaField_pass rfl rfl (by decide), imetaField_pass rfl rfl (by decide),
      imetaField_pass rfl rfl (by decide)]
    exact imetaField_here rfl
  have name : imetaField a.fields "name" = some a.name := by
    rw [Attachment.fields, String.append_assoc, imetaField_pass rfl rfl (by decide), imetaField_pass rfl rfl (by decide),
      imetaField_pass rfl rfl (by decide), imetaField_pass rfl rfl (by decide)]
    exact imetaField_here rfl
  simp [parseAttachment, url, mime, sha256, size, name, valid]

/-- What reads as a file is within the limits. -/
theorem isValid_of_parse {fields : List String} {a : Attachment} (read : parseAttachment fields = some a) :
    a.isValid = true := by
  unfold parseAttachment at read
  simp only [Option.bind_eq_bind, Option.bind_eq_some_iff] at read
  obtain ⟨hash, _, sha256, _, size, _, read⟩ := read
  split at read
  · rename_i valid
    cases read
    exact valid
  · cases read

/-! ### Messages -/

/-- The rows a message says its files in. -/
def imetaTags (event : Event) : List Tag := event.tags.filter fun tag => tag.head? == some "imeta"

/-- Each of them is read, or there are no files. -/
theorem attachmentsOf_eq (event : Event) : attachmentsOf event =
    (((imetaTags event).map List.tail).mapM parseAttachment).bind fun files =>
      if maxAttachments < files.length then none else some files := by
  unfold attachmentsOf imetaTags
  refine congrArg (Option.bind · _) (congrArg (List.mapM parseAttachment) ?_)
  induction event.tags with
  | nil => rfl
  | cons tag rest ih =>
    rcases tag with _ | ⟨name, fields⟩
    · simpa using ih
    · by_cases own : name = "imeta"
      · subst own
        simpa using ih
      · simpa [own] using ih

variable [Nostr]

/-- A message has the files it is built with; and whatever reads as having files has one
for each of its rows, all valid, and not too many. -/
theorem attachmentsOf_messageWith :
    (∀ group channel text files person date, files.length ≤ maxAttachments → (∀ a ∈ files, a.isValid = true) →
      attachmentsOf (messageWith group channel text files person date) = some files) ∧
    ∀ event files, attachmentsOf event = some files → files.length ≤ maxAttachments ∧
      List.Forall₂ (fun tag a => parseAttachment tag.tail = some a) (imetaTags event) files ∧
      ∀ a ∈ files, a.isValid = true := by
  constructor
  · intro group channel text files person date few valid
    have rows : (imetaTags (messageWith group channel text files person date)).map List.tail = files.map Attachment.fields := by
      simp [imetaTags, messageWith, signed, Draft.h, Attachment.toTag, List.filter_map, Function.comp_def]
    have read : (files.map Attachment.fields).mapM parseAttachment = some files :=
      mapM_map_eq_some fun a member => parseAttachment_fields (valid a member)
    rw [attachmentsOf_eq, rows, read]
    exact if_neg (Nat.not_lt.mpr few)
  · intro event files found
    rw [attachmentsOf_eq, Option.bind_eq_some_iff] at found
    obtain ⟨read, rows, few⟩ := found
    split at few
    · cases few
    · rename_i enough
      cases few
      rw [mapM_eq_some_iff] at rows
      have valid : List.Forall₂ (fun a row => a.isValid = true ∧ parseAttachment row = some a) files
          ((imetaTags event).map List.tail) := rows.flip.imp fun a row read => ⟨isValid_of_parse read, read⟩
      exact ⟨Nat.not_lt.mp enough, List.forall₂_map_left_iff.mp rows, ((List.forall₂_and_left _ _).mp valid).1⟩

/-- A picture whose name looks like other fields. -/
def holiday : Attachment where
  hash := .ofList (List.replicate 64 'a')
  sha256 := .ofList (List.replicate 64 'b')
  size := 7
  mime := "image/png size 9"
  name := "url x y"

theorem attachmentsOf_messageWith_holiday :
    attachmentsOf (messageWith club "general" "look" [holiday] guest 500) = some [holiday] :=
  attachmentsOf_messageWith.1 club "general" "look" [holiday] guest 500 (by decide)
    (List.forall_mem_singleton.mpr (by decide +kernel))

end HitEnter.Wire
