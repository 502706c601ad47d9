import Mathlib.Data.List.Forall2
import Sidecar.Proofs.Ordering
import Sidecar.Step.Decode

/-!
# Steps and their serialized form

A step is read back from its serialized form. That form may be loosened first: its members may stand in any order,
others may stand between them, and those that have the value of their default may be missing, in the report declarations
too.

The main statement is `Step.decode?_of_serialized`. What a loosened object still says is `Json.Says`, and a field is
read from it as from the full one (`FieldsOf.field?_eq`). A shell is written as a name; the name of a shell that was
read from a name leads back to it, since trimming once is enough (`Text.trimChars_trimChars`).
-/

namespace Sidecar

/-! ## Names of shells -/

namespace Text

theorem dropEndWhile_prefix (p : Char → Bool) (cs : List Char) : dropEndWhile p cs <+: cs := by
  have hsuffix := List.reverse_prefix.2 (cs.reverse.dropWhile_suffix p)
  rwa [List.reverse_reverse] at hsuffix

/-- A text that is cut off at both ends neither begins nor ends with a blank. -/
theorem trimChars_trimChars (cs : List Char) : trimChars (trimChars cs) = trimChars cs := by
  apply trimChars_of_no_blank
  · intro c hc
    -- what is dropped at the end leaves the first character alone
    rcases dropEndWhile_prefix isBlank (cs.dropWhile isBlank) with ⟨dropped, hdropped⟩
    have hfirst : (cs.dropWhile isBlank).head? = some c := by
      rw [← hdropped, List.head?_append, show (dropEndWhile isBlank _).head? = some c from hc]
      rfl
    have hhead := List.head?_dropWhile_not isBlank cs
    rw [hfirst] at hhead
    simpa using hhead
  · intro c hc
    have hhead := List.head?_dropWhile_not isBlank (cs.dropWhile isBlank).reverse
    rw [trimChars, dropEndWhile, List.getLast?_reverse] at hc
    rw [hc] at hhead
    simpa using hhead

end Text

namespace Shell

/-- The name of a shell that was read from a name leads back to it. -/
theorem ofName_name_ofName (s : String) : ofName (ofName s).name = ofName s := by
  have hagain : Text.trimChars (String.ofList (Text.trimChars s.toList)).toList = Text.trimChars s.toList := by
    rw [String.toList_ofList, Text.trimChars_trimChars]
  generalize hshell : ofName s = shell
  cases shell with
  | bash => decide +kernel
  | sh => decide +kernel
  | powershell => decide +kernel
  | pwsh => decide +kernel
  | unspecified => decide +kernel
  | unknown name =>
    -- an unknown name is kept as it was trimmed, so it is looked up once more in the same way
    have hname : name = String.ofList (Text.trimChars s.toList) := by
      unfold ofName at hshell
      grind
    rw [Shell.name, ← hshell, hname, ofName, hagain]
    rfl

/-- The supported shells are those whose names are given, up to blanks around them and the case of ASCII letters. -/
theorem isKnown_ofName (s : String) :
    (ofName s).isKnown = true ↔
      String.ofList (lowerCase (Text.trimChars s.toList)) ∈ ["bash", "sh", "powershell", "pwsh"] := by
  unfold ofName
  grind [isKnown]

end Shell

/-! ## Loosened objects -/

namespace Json

open Document

/-- An object says what members say although it is loosened: it has them in any order, with members of other names among
them, and may lack those that have the value of their default. -/
def Says (names : List String) (defaults members : List (String × Json)) (value : Json) : Prop :=
  ∃ kept others shuffled, value = .record shuffled ∧ shuffled.Perm (kept ++ others) ∧ kept.Sublist members ∧
    (∀ member ∈ members, member ∈ kept ∨ defaults.lookup member.1 = some member.2) ∧
    ∀ other ∈ others, other.1 ∉ names

/-- An object with just these members says what they say. -/
theorem says_record (names : List String) (defaults members : List (String × Json)) :
    Says names defaults members (.record members) := by
  refine ⟨members, [], members, rfl, ?_, List.Sublist.refl members, ?_, ?_⟩
  · rw [List.append_nil]
  · exact fun member hmember => .inl hmember
  · exact fun other hother => absurd hother List.not_mem_nil

theorem members?_record (members : List (String × Json)) : members? (.record members) = some members := by
  rw [record, members?]
  induction members with
  | nil => rfl
  | cons member rest ih =>
    rw [List.map_cons, List.mapM_cons, ih]
    rfl

/-- A name that is bound once is looked up wherever it stands. -/
theorem lookup_of_mem {fields : List (String × Json)} (hnodup : (fields.map (·.1)).Nodup) {name : String} {value : Json}
    (h : (name, value) ∈ fields) : fields.lookup name = some value := by
  rcases List.append_of_mem h with ⟨before, after, hsplit⟩
  rw [List.lookup_eq_some_iff]
  refine ⟨before, after, hsplit, ?_⟩
  intro field hfield
  rw [bne_iff_ne]
  rintro rfl
  rw [hsplit, List.map_append, List.map_cons] at hnodup
  have hdisjoint := (List.nodup_append.1 hnodup).2.2
  exact hdisjoint field.1 (List.mem_map_of_mem hfield) field.1 List.mem_cons_self rfl

theorem lookup_of_forall_ne {fields : List (String × Json)} {name : String} (h : ∀ value, (name, value) ∉ fields) :
    fields.lookup name = none := by
  rw [List.lookup_eq_none_iff]
  intro field hfield
  rw [bne_iff_ne]
  rintro rfl
  exact h field.2 hfield

/-- Fields that are left of members when some of those with a default value are gone. -/
structure FieldsOf (defaults members fields : List (String × Json)) : Prop where
  nodup : (fields.map (·.1)).Nodup
  among : ∀ field ∈ fields, field ∈ members
  complete : ∀ member ∈ members, member ∈ fields ∨ defaults.lookup member.1 = some member.2

/-- The fields of a loosened object are its kept members. -/
theorem Says.record?_eq {names : List String} {defaults members : List (String × Json)} {value : Json}
    (h : Says names defaults members value) (hnames : members.map (·.1) = names) (hnodup : names.Nodup) :
    ∃ fields, record? names value = some fields ∧ FieldsOf defaults members fields := by
  rcases h with ⟨kept, others, shuffled, rfl, hperm, hsub, hdefault, hothers⟩
  have hkept : (kept ++ others).filter (fun member => names.contains member.1) = kept := by
    rw [List.filter_append, List.filter_eq_self.2, List.filter_eq_nil_iff.2, List.append_nil]
    · intro other hother
      simpa using hothers other hother
    · intro member hmember
      have hmem : member.1 ∈ members.map (·.1) := List.mem_map_of_mem (hsub.subset hmember)
      rw [hnames] at hmem
      simpa using hmem
  have hfields := hperm.filter fun member => names.contains member.1
  rw [hkept] at hfields
  have hfieldNames : ((shuffled.filter fun member => names.contains member.1).map (·.1)).Nodup := by
    rw [(hfields.map (·.1)).nodup_iff]
    apply List.Nodup.sublist (hsub.map (·.1))
    rw [hnames]
    exact hnodup
  refine ⟨shuffled.filter fun member => names.contains member.1, ?_, hfieldNames, ?_, ?_⟩
  · show (members? (.record shuffled)).bind _ = _
    rw [members?_record]
    exact if_pos hfieldNames
  · intro field hfield
    exact hsub.subset (hfields.mem_iff.1 hfield)
  · intro member hmember
    rcases hdefault member hmember with hmem | hlookup
    · exact .inl (hfields.mem_iff.2 hmem)
    · exact .inr hlookup

/-- A field is read from a loosened object as from the full one. -/
theorem FieldsOf.field?_eq {defaults members fields : List (String × Json)} (h : FieldsOf defaults members fields)
    (hnodup : (members.map (·.1)).Nodup) {α : Type} {read : Json → Option α} {name : String} {a default : α}
    (value usual : Json) (hmember : (name, value) ∈ members) (hread : read value = some a)
    (husual : defaults.lookup name = some usual) (hdefault : read usual = some default) :
    field? fields name read default = some a := by
  unfold field?
  by_cases hfield : (name, value) ∈ fields
  · rw [lookup_of_mem h.nodup hfield]
    exact hread
  · -- the member is gone, so its value is the default, and no other member has its name
    have hmissing : fields.lookup name = none := by
      apply lookup_of_forall_ne
      intro other hother
      have hlookup := lookup_of_mem hnodup (h.among _ hother)
      rw [lookup_of_mem hnodup hmember] at hlookup
      cases hlookup
      exact hfield hother
    have hvalue := (h.complete _ hmember).resolve_left hfield
    rw [husual] at hvalue
    cases hvalue
    rw [hread] at hdefault
    cases hdefault
    rw [hmissing]

/-! ## Values of fields -/

theorem texts?_texts (ss : List String) : Document.texts? (texts ss) = some ss := by
  show (ss.map text).mapM Document.text? = some ss
  induction ss with
  | nil => rfl
  | cons s rest ih =>
    rw [List.map_cons, List.mapM_cons, ih]
    rfl

/-- A number is read back from its digits. -/
theorem natUpTo?_nat {bound n : Nat} (h : n ≤ bound) : natUpTo? bound (nat n) = some n := by
  have hchars : (toString n).toList = Nat.toDigits 10 n := String.toList_ofList
  have hdigits : (Nat.toDigits 10 n).all Char.isDigit = true := by
    rw [List.all_eq_true]
    intro c hc
    exact Nat.isDigit_of_mem_toDigits (by decide) (by decide) hc
  have hnat : Document.nat? (nat n) = some n := by
    show (if (toString n).toList.all Char.isDigit then
      some (Nat.ofDigitChars 10 (toString n).toList 0) else none) = some n
    rw [hchars, if_pos hdigits, Nat.ofDigitChars_toDigits (by decide) (by decide)]
  rw [natUpTo?, hnat, Option.filter_some, if_pos (by simpa using h)]

end Json

open Json

/-- The environment of a step is read back from its object. -/
theorem Bindings.decode?_textRecord (b : Bindings) : Bindings.decode? (textRecord b.toList) = some b := by
  have hentries : ((b.toList.map fun entry => (entry.1, text entry.2)).mapM fun entry =>
      (Document.text? entry.2).map (entry.1, ·)) = some b.toList := by
    generalize b.toList = entries
    induction entries with
    | nil => rfl
    | cons entry rest ih =>
      rw [List.map_cons, List.mapM_cons, ih]
      rfl
  have hbindings : Bindings.ofList b.toList = b := by
    have htoList := Bindings.toList_ofList b.sorted
    cases hofList : Bindings.ofList b.toList with
    | mk entries hsorted =>
      rw [hofList] at htoList
      cases b
      cases htoList
      rfl
  show (members? (textRecord b.toList)).bind _ = some b
  rw [textRecord, members?_record]
  show Option.bind (List.mapM _ (b.toList.map fun entry => (entry.1, text entry.2))) _ = _
  rw [hentries]
  exact congrArg some hbindings

namespace ReportDeclaration

/-- The members of the serialized form of a report declaration. -/
def members (report : ReportDeclaration) : List (String × Json) :=
  [("type", .text report.format.name), ("paths", .texts report.paths)]

/-- A value says what a report declaration is, perhaps loosened. -/
def SaidBy (report : ReportDeclaration) (value : Json) : Prop :=
  Says ["type", "paths"] ({} : ReportDeclaration).members report.members value

/-- A report declaration is read back. -/
theorem decode?_of_saidBy {report : ReportDeclaration} {value : Json} (h : report.SaidBy value) :
    decode? value = some report := by
  rcases h.record?_eq rfl (by decide) with ⟨fields, hrecord, hfields⟩
  have hnodup : (report.members.map (·.1)).Nodup := by
    show ["type", "paths"].Nodup
    decide
  have hformat : ReportFormat.decode? (text report.format.name) = some report.format := by
    cases report.format
    rfl
  have htype : Document.field? fields "type" ReportFormat.decode? .junit = some report.format :=
    hfields.field?_eq hnodup (text report.format.name) (text "junit") (by simp [members]) hformat rfl rfl
  have hpaths : Document.field? fields "paths" Document.texts? [] = some report.paths :=
    hfields.field?_eq hnodup (texts report.paths) (texts []) (by simp [members]) (texts?_texts report.paths) rfl rfl
  simp only [decode?, hrecord, htype, hpaths, Option.bind_eq_bind, Option.bind_some, Option.pure_def]

end ReportDeclaration

namespace Step

/-- The members of the serialized form of a step, with these values for its reports. -/
def members (step : Step) (reports : List Json) : List (String × Json) :=
  [("id", .text step.id),
    ("display_name", .text step.displayName),
    ("command", .text step.command),
    ("shell_type", .text step.shell.name),
    ("environment", .textRecord step.environment.toList),
    ("entrypoint", .texts step.entrypoint),
    ("image", .text step.image),
    ("reports", .array reports),
    ("num_retries", .nat step.retries),
    ("timeout_secs", .nat step.timeoutSeconds)]

/-- A value says what a step is, perhaps loosened. -/
def SaidBy (step : Step) (value : Json) : Prop :=
  ∃ reports, List.Forall₂ ReportDeclaration.SaidBy step.reports reports ∧
    Says fieldNames (({} : Step).members []) (step.members reports) value

/-- The serialized form of a step says what it is. -/
theorem saidBy_toJson (step : Step) : step.SaidBy step.toJson := by
  refine ⟨step.reports.map ReportDeclaration.toJson, ?_, says_record _ _ _⟩
  rw [List.forall₂_map_right_iff, List.forall₂_same]
  intro report _
  exact says_record _ _ _

theorem decodeList?_of_saidBy {reports : List ReportDeclaration} {values : List Json}
    (h : List.Forall₂ ReportDeclaration.SaidBy reports values) :
    ReportDeclaration.decodeList? (Json.array values) = some reports := by
  show values.mapM ReportDeclaration.decode? = some reports
  induction h with
  | nil => rfl
  | cons hfirst hrest ih =>
    rw [List.mapM_cons, ReportDeclaration.decode?_of_saidBy hfirst, ih]
    rfl

/-- A step is read back from every object that says what it is. -/
theorem decode?_of_saidBy {step : Step} {value : Json} (h : step.SaidBy value)
    (hshell : Shell.ofName step.shell.name = step.shell) (hretries : step.retries ≤ maxWord32)
    (htimeout : step.timeoutSeconds ≤ maxWord64) : decode? value = some step := by
  rcases h with ⟨reports, hreports, hsays⟩
  rcases hsays.record?_eq rfl (by decide) with ⟨fields, hrecord, hfields⟩
  have hnodup : ((step.members reports).map (·.1)).Nodup := by
    show fieldNames.Nodup
    decide
  have hid : Document.field? fields "id" Document.text? "" = some step.id :=
    hfields.field?_eq hnodup (text step.id) (text "") (by simp [members]) rfl rfl rfl
  have hdisplayName : Document.field? fields "display_name" Document.text? "" = some step.displayName :=
    hfields.field?_eq hnodup (text step.displayName) (text "") (by simp [members]) rfl rfl rfl
  have hcommand : Document.field? fields "command" Document.text? "" = some step.command :=
    hfields.field?_eq hnodup (text step.command) (text "") (by simp [members]) rfl rfl rfl
  have hshellType : Document.field? fields "shell_type" (fun v => (Document.text? v).map Shell.ofName) .unspecified =
      some step.shell :=
    hfields.field?_eq hnodup (text step.shell.name) (text "unspecified") (by simp [members])
      (congrArg some hshell) rfl (by decide +kernel)
  have henvironment : Document.field? fields "environment" Bindings.decode? ∅ = some step.environment :=
    hfields.field?_eq hnodup (textRecord step.environment.toList) (textRecord []) (by simp [members])
      (Bindings.decode?_textRecord step.environment) rfl rfl
  have hentrypoint : Document.field? fields "entrypoint" Document.texts? [] = some step.entrypoint :=
    hfields.field?_eq hnodup (texts step.entrypoint) (texts []) (by simp [members]) (texts?_texts step.entrypoint)
      rfl rfl
  have himage : Document.field? fields "image" Document.text? "" = some step.image :=
    hfields.field?_eq hnodup (text step.image) (text "") (by simp [members]) rfl rfl rfl
  have hdeclared : Document.field? fields "reports" ReportDeclaration.decodeList? [] = some step.reports :=
    hfields.field?_eq hnodup (array reports) (array []) (by simp [members]) (decodeList?_of_saidBy hreports) rfl rfl
  have hattempts : Document.field? fields "num_retries" (Document.natUpTo? maxWord32) 0 = some step.retries :=
    hfields.field?_eq hnodup (nat step.retries) (nat 0) (by simp [members]) (natUpTo?_nat hretries) rfl
      (natUpTo?_nat (Nat.zero_le _))
  have hseconds : Document.field? fields "timeout_secs" (Document.natUpTo? maxWord64) 0 = some step.timeoutSeconds :=
    hfields.field?_eq hnodup (nat step.timeoutSeconds) (nat 0) (by simp [members]) (natUpTo?_nat htimeout) rfl
      (natUpTo?_nat (Nat.zero_le _))
  simp only [decode?, hrecord, hid, hdisplayName, hcommand, hshellType, henvironment, hentrypoint, himage, hdeclared,
    hattempts, hseconds, Option.bind_eq_bind, Option.bind_some, Option.pure_def]

/-- A step is read back from its serialized form if its shell was read from a name and its numbers fit their words, and
that is still so when the form is loosened. Of a shell, reading its name again changes nothing, and the supported shells
are known by their names alone. -/
theorem decode?_of_serialized :
    (∀ s : String, Shell.ofName (Shell.ofName s).name = Shell.ofName s ∧
      ((Shell.ofName s).isKnown = true ↔
        String.ofList (Shell.lowerCase (Text.trimChars s.toList)) ∈ ["bash", "sh", "powershell", "pwsh"])) ∧
    ∀ step : Step, (∃ s, step.shell = Shell.ofName s) → step.retries ≤ maxWord32 → step.timeoutSeconds ≤ maxWord64 →
      decode? step.toJson = some step ∧ ∀ value, step.SaidBy value → decode? value = some step := by
  refine ⟨fun s => ⟨Shell.ofName_name_ofName s, Shell.isKnown_ofName s⟩, ?_⟩
  rintro step ⟨s, hs⟩ hretries htimeout
  have hshell : Shell.ofName step.shell.name = step.shell := by
    rw [hs, Shell.ofName_name_ofName]
  refine ⟨decode?_of_saidBy step.saidBy_toJson hshell hretries htimeout, ?_⟩
  intro value hvalue
  exact decode?_of_saidBy hvalue hshell hretries htimeout

/-- A step is read back from an object with its members in reverse, one member more, and most of those that hold a
default gone, also the type of its report declaration. -/
theorem decode?_of_serialized_loosened :
    let step : Step := { id := "s", shell := .bash, reports := [{ paths := ["a.xml"] }], retries := 2 }
    let loosened : Json := .record [("note", .null), ("num_retries", .nat 2),
      ("reports", .array [.record [("paths", .texts ["a.xml"])]]), ("shell_type", .text "bash"), ("id", .text "s")]
    step.shell = Shell.ofName " BASH" ∧ step.SaidBy loosened ∧ decode? loosened = some step := by
  intro step loosened
  have hshell : step.shell = Shell.ofName " BASH" := by decide +kernel
  have hreport : ReportDeclaration.SaidBy { paths := ["a.xml"] } (.record [("paths", .texts ["a.xml"])]) := by
    refine ⟨[("paths", .texts ["a.xml"])], [], _, rfl, List.Perm.refl _, ?_, ?_, ?_⟩
    · exact List.sublist_cons_self _ _
    · intro member hmember
      rcases List.mem_cons.1 hmember with rfl | hmember
      · exact .inr rfl
      · exact .inl hmember
    · exact fun other hother => absurd hother List.not_mem_nil
  have hsaid : step.SaidBy loosened := by
    refine ⟨_, .cons hreport .nil, ?_⟩
    let kept := (step.members [.record [("paths", .texts ["a.xml"])]]).filter fun member =>
      ["id", "shell_type", "reports", "num_retries"].contains member.1
    refine ⟨kept, [("note", .null)], _, rfl, List.reverse_perm (kept ++ [("note", null)]), List.filter_sublist, ?_, ?_⟩
    · intro member hmember
      by_cases hkept : ["id", "shell_type", "reports", "num_retries"].contains member.1 = true
      · exact .inl (List.mem_filter.2 ⟨hmember, hkept⟩)
      · right
        simp only [members, List.mem_cons, List.not_mem_nil, or_false] at hmember
        rcases hmember with rfl | rfl | rfl | rfl | rfl | rfl | rfl | rfl | rfl | rfl
        · exact absurd rfl hkept
        · rfl
        · rfl
        · exact absurd rfl hkept
        · rfl
        · rfl
        · rfl
        · exact absurd rfl hkept
        · exact absurd rfl hkept
        · rfl
    · intro other hother
      rw [List.mem_singleton.1 hother]
      decide
  have hback := decode?_of_serialized.2 step ⟨" BASH", hshell⟩ (by decide) (by decide)
  exact ⟨hshell, hsaid, hback.2 loosened hsaid⟩

end Step

end Sidecar
