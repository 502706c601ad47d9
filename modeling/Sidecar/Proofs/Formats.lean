import Sidecar.Proofs.Lexing
import Sidecar.Proofs.Nesting
import Sidecar.Step.Decode

/-!
# Steps in both formats

A step may be written as JSON and is read as YAML. A portable text is read as the same step
(`Step.ofYaml?_of_portable`), and `Step.ofYaml?_ne_ofJson?` shows texts that are not.

By its tokens and nodes a portable text is a YAML value that mirrors the JSON one. `Carries` says of a decoder that what
it reads of the one it reads of the other. It holds of texts, lists of them, numbers, bindings and report declarations,
and so of a step (`Step.carries`): a record has the same fields in both formats (`record?_alike`).
-/

namespace Sidecar

namespace Json

/-! ## Values in both formats -/

/-- A value of JSON as a value of YAML. -/
def Written.yaml (w : Written) : Yaml.Value :=
  ⟨w.node, []⟩

/-- The items of an array. -/
def WrittenItems.toList : WrittenItems → List Written
  | .last item _ => [item]
  | .more item _ _ rest => item :: rest.toList

/-- The names of an object with their values. -/
def WrittenMembers.toList : WrittenMembers → List (List Piece × Written)
  | .last name _ _ value _ => [(name, value)]
  | .more name _ _ value _ _ rest => (name, value) :: rest.toList

theorem WrittenItems.values_eq (items : WrittenItems) : items.values = items.toList.map Written.value := by
  match items with
  | .last item after => rfl
  | .more item after before rest =>
    rw [WrittenItems.values, WrittenItems.toList, List.map_cons, rest.values_eq]

theorem WrittenItems.nodes_eq (items : WrittenItems) : items.nodes = items.toList.map Written.node := by
  match items with
  | .last item after => rfl
  | .more item after before rest =>
    rw [WrittenItems.nodes, WrittenItems.toList, List.map_cons, rest.nodes_eq]

theorem WrittenMembers.values_eq (members : WrittenMembers) :
    members.values = members.toList.map fun (name, value) => (Piece.meaning name, value.value) := by
  match members with
  | .last name beforeColon afterColon value after => rfl
  | .more name beforeColon afterColon value after before rest =>
    rw [WrittenMembers.values, WrittenMembers.toList, List.map_cons, rest.values_eq]

theorem WrittenMembers.nodes_eq (members : WrittenMembers) :
    members.nodes = members.toList.map fun (name, value) => (Piece.node name, value.node) := by
  match members with
  | .last name beforeColon afterColon value after => rfl
  | .more name beforeColon afterColon value after before rest =>
    rw [WrittenMembers.nodes, WrittenMembers.toList, List.map_cons, rest.nodes_eq]

/-- What is read of a value of JSON is also read of it as YAML. -/
def Carries {α : Type} (readJson : Json → Option α) (readYaml : Yaml.Value → Option α) (w : Written) : Prop :=
  ∀ a, readJson w.value = some a → readYaml w.yaml = some a

theorem carries_text (w : Written) : Carries Document.text? Document.text? w := by
  intro s h
  cases w with
  | string pieces =>
    have hs : Piece.meaning pieces = some s := h
    show some ((Piece.meaning pieces).getD "") = some s
    rw [hs]
    rfl
  | _ => cases h

/-- A list has the same items in both formats. -/
theorem list?_alike {w : Written} {values : List Json} (h : Document.list? w.value = some values) :
    ∃ items : List Written, values = items.map Written.value ∧ w.value = .array values ∧
      Document.list? w.yaml = some (items.map Written.yaml) := by
  cases w with
  | emptyArray inside =>
    cases h
    exact ⟨[], rfl, rfl, rfl⟩
  | array before items =>
    cases h
    refine ⟨items.toList, items.values_eq, rfl, ?_⟩
    show some (items.nodes.map fun node => (⟨node, []⟩ : Yaml.Value)) = _
    rw [items.nodes_eq, List.map_map]
    rfl
  | _ => cases h

/-- Items are read alike if each of them is. -/
theorem mapM_carries {α : Type} {readJson : Json → Option α} {readYaml : Yaml.Value → Option α} {items : List Written}
    (h : ∀ item ∈ items, Carries readJson readYaml item) {as : List α}
    (hread : (items.map Written.value).mapM readJson = some as) : (items.map Written.yaml).mapM readYaml = some as := by
  induction items generalizing as with
  | nil => exact hread
  | cons item rest ih =>
    simp only [List.map_cons, List.mapM_cons, Option.bind_eq_bind, Option.bind_eq_some_iff] at hread ⊢
    rcases hread with ⟨a, ha, others, hothers, hresult⟩
    have hrest := ih (fun w hw => h w (List.mem_cons_of_mem item hw)) hothers
    exact ⟨a, h item List.mem_cons_self a ha, others, hrest, hresult⟩

theorem carries_texts (w : Written) : Carries Document.texts? Document.texts? w := by
  intro ss h
  simp only [Document.texts?, Option.bind_eq_bind, Option.bind_eq_some_iff] at h ⊢
  rcases h with ⟨values, hlist, hread⟩
  rcases list?_alike hlist with ⟨items, rfl, _, hyaml⟩
  exact ⟨_, hyaml, mapM_carries (fun item _ => carries_text item) hread⟩

/-! ## Records -/

/-- Members with their values in JSON. -/
def valuesIn (members : List (String × Written)) : List (String × Json) :=
  members.map fun (name, w) => (name, w.value)

/-- Members with their values in YAML. -/
def yamlIn (members : List (String × Written)) : List (String × Yaml.Value) :=
  members.map fun (name, w) => (name, w.yaml)

theorem mapM_alike {written : List (List Piece × Written)} {values : List (String × Json)}
    (h : (written.map fun (name, w) => (Piece.meaning name, w.value)).mapM (fun member => member.1.map (·, member.2)) =
      some values) :
    ∃ members : List (String × Written), values = valuesIn members ∧
      (written.map fun (name, w) => (Piece.meaning name, w.value)) =
        values.map (fun (name, value) => (some name, value)) ∧
      (written.map fun (name, w) => (Piece.node name, w.node)).mapM
        (fun entry => (Yaml.Value.text? ⟨entry.1, []⟩).map (·, (⟨entry.2, []⟩ : Yaml.Value))) =
          some (yamlIn members) := by
  induction written generalizing values with
  | nil =>
    cases h
    exact ⟨[], rfl, rfl, rfl⟩
  | cons member rest ih =>
    rcases member with ⟨name, w⟩
    simp only [List.map_cons, List.mapM_cons, Option.bind_eq_bind, Option.bind_eq_some_iff, Option.map_eq_some_iff] at h
    rcases h with ⟨_, ⟨s, hs, rfl⟩, others, hothers, hresult⟩
    cases hresult
    rcases ih hothers with ⟨members, rfl, hvalues, hyaml⟩
    have htext : Yaml.Value.text? ⟨Piece.node name, []⟩ = some s := by
      show some ((Piece.meaning name).getD "") = some s
      rw [hs]
      rfl
    refine ⟨(s, w) :: members, rfl, ?_, ?_⟩
    · show (Piece.meaning name, w.value) :: _ = (some s, w.value) :: _
      rw [hvalues, hs]
    · rw [List.map_cons, List.mapM_cons, htext, hyaml]
      rfl

/-- An object has the same members in both formats. -/
theorem members?_alike {w : Written} {values : List (String × Json)} (h : Document.members? w.value = some values) :
    ∃ members : List (String × Written), values = valuesIn members ∧
      w.value = .object (values.map fun (name, value) => (some name, value)) ∧
      Document.members? w.yaml = some (yamlIn members) := by
  cases w with
  | emptyObject inside =>
    cases h
    exact ⟨[], rfl, rfl, rfl⟩
  | object before members =>
    have hvalues : members.values.mapM (fun member => member.1.map (·, member.2)) = some values := h
    rw [members.values_eq] at hvalues
    rcases mapM_alike hvalues with ⟨known, hknown, hsame, hyaml⟩
    refine ⟨known, hknown, ?_, ?_⟩
    · rw [Written.value, members.values_eq, hsame]
    · show members.nodes.mapM _ = _
      rw [members.nodes_eq]
      exact hyaml
  | _ => cases h

/-- A record has the same fields in both formats. -/
theorem record?_alike {w : Written} {names : List String} {fields : List (String × Json)}
    {members : List (Option String × Json)} (hobject : w.value = .object members)
    (h : Document.record? names w.value = some fields) :
    ∃ known : List (String × Written), fields = valuesIn known ∧ Document.record? names w.yaml = some (yamlIn known) ∧
      ∀ field ∈ known, (some field.1, field.2.value) ∈ members := by
  have hfields : Document.fields? names w.value = Document.members? w.value := by
    rw [hobject]
    rfl
  simp only [Document.record?, hfields, Option.bind_eq_bind, Option.bind_eq_some_iff] at h
  rcases h with ⟨values, hvalues, hresult⟩
  rcases members?_alike hvalues with ⟨all, rfl, hall, hyaml⟩
  have hfilter : (valuesIn all).filter (fun member => names.contains member.1) =
      valuesIn (all.filter fun member => names.contains member.1) := by
    simp [valuesIn, List.filter_map, Function.comp_def]
  have hfilterYaml : (yamlIn all).filter (fun member => names.contains member.1) =
      yamlIn (all.filter fun member => names.contains member.1) := by
    simp [yamlIn, List.filter_map, Function.comp_def]
  have hnames : ∀ known : List (String × Written), (valuesIn known).map (·.1) = (yamlIn known).map (·.1) := by
    intro known
    simp [valuesIn, yamlIn]
  rw [hfilter, hnames] at hresult
  split at hresult
  · -- the same members are kept in both formats, and they have the same names
    rename_i hnodup
    cases hresult
    refine ⟨all.filter fun member => names.contains member.1, rfl, ?_, ?_⟩
    · show (Document.members? w.yaml).bind _ = _
      rw [hyaml, Option.bind_some, hfilterYaml, if_pos hnodup]
      rfl
    · intro field hfield
      rw [hobject, Json.object.injEq] at hall
      rw [hall]
      have hmem := List.mem_filter.1 hfield
      exact List.mem_map.2 ⟨(field.1, field.2.value), List.mem_map.2 ⟨field, hmem.1, rfl⟩, rfl⟩
  · cases hresult

/-- A field is read alike if its value is. -/
theorem field?_carries {α : Type} {readJson : Json → Option α} {readYaml : Yaml.Value → Option α}
    {known : List (String × Written)} {name : String} {default a : α}
    (h : ∀ w, (name, w) ∈ known → Carries readJson readYaml w)
    (hread : Document.field? (valuesIn known) name readJson default = some a) :
    Document.field? (yamlIn known) name readYaml default = some a := by
  induction known with
  | nil => exact hread
  | cons field rest ih =>
    rcases field with ⟨key, w⟩
    unfold Document.field? at hread ih ⊢
    rw [valuesIn, List.map_cons, List.lookup_cons] at hread
    rw [yamlIn, List.map_cons, List.lookup_cons]
    by_cases hkey : name = key
    · subst hkey
      rw [beq_self_eq_true] at hread ⊢
      exact h w List.mem_cons_self a hread
    · rw [beq_eq_false_iff_ne.2 hkey] at hread ⊢
      exact ih (fun w hw => h w (List.mem_cons_of_mem _ hw)) hread

/-! ## Numbers -/

theorem digitValue?_of_isDigit {c : Char} (h : c.isDigit = true) :
    Yaml.Value.digitValue? 10 c = some (c.toNat - '0'.toNat) := by
  have hrange := h
  simp only [Char.isDigit, Bool.and_eq_true, decide_eq_true_eq] at hrange
  have hhigh : c.toNat ≤ '9'.toNat := hrange.2
  have hbelow : c.toNat - '0'.toNat < 10 := by
    have hnine : '9'.toNat = 57 := rfl
    have hzero : '0'.toNat = 48 := rfl
    omega
  rw [Yaml.Value.digitValue?, Yaml.hexDigit?, if_pos h, Option.filter_some, if_pos (by simpa using hbelow)]

/-- Digits are added up one after the other. -/
theorem foldlM_digits (digits : List Char) (value : Nat) (h : ∀ c ∈ digits, c.isDigit = true) :
    digits.foldlM (fun value c => (Yaml.Value.digitValue? 10 c).map (value * 10 + ·)) value =
      some (Nat.ofDigitChars 10 digits value) := by
  induction digits generalizing value with
  | nil => rfl
  | cons c rest ih =>
    rw [List.foldlM_cons, digitValue?_of_isDigit (h c List.mem_cons_self), Nat.ofDigitChars_cons, Nat.mul_comm 10 value]
    exact ih _ fun d hd => h d (List.mem_cons_of_mem c hd)

/-- Digits stand for the same number in both formats, unless they begin with a zero. -/
theorem readNat?_digits {digits : Digits} (hlead : digits.chars.head? = some '0' → digits.chars = ['0']) :
    Yaml.Value.readNat? (String.ofList digits.chars) = some (Nat.ofDigitChars 10 digits.chars 0) := by
  have hread : Yaml.Value.readDigits? 10 digits.chars = some (Nat.ofDigitChars 10 digits.chars 0) := by
    have hempty : digits.chars.isEmpty = false := by simpa using digits.ne_nil
    rw [Yaml.Value.readDigits?, hempty]
    exact foldlM_digits digits.chars 0 digits.isDigit
  rw [← hread]
  unfold Yaml.Value.readNat?
  rw [String.toList_ofList]
  rcases hchars : digits.chars with _ | ⟨c, rest⟩
  · exact absurd hchars digits.ne_nil
  · have hc : c.isDigit = true := digits.isDigit c (by rw [hchars]; exact List.mem_cons_self)
    have hplus : c ≠ '+' := by
      rintro rfl
      cases hc
    by_cases hzero : c = '0'
    · subst hzero
      rw [hchars] at hlead
      rw [hlead rfl]
      rfl
    · simp [hplus, hzero, Yaml.Value.isZeroLed]

/-- A number without sign, fraction and exponent is its digits. -/
theorem numeral_of_isDigit {n : Numeral} (h : n.text.all Char.isDigit = true) : n.text = n.whole.chars := by
  simp only [Numeral.text, List.all_append, Bool.and_eq_true] at h
  rcases h with ⟨⟨⟨hsign, _⟩, hfraction⟩, hexponent⟩
  have hnegative : n.negative = false := by
    cases hn : n.negative with
    | true =>
      rw [hn] at hsign
      exact absurd hsign (by decide)
    | false => rfl
  have hnoFraction : n.fraction = none := by
    cases hn : n.fraction with
    | some digits =>
      rw [hn, fractionText, List.all_cons] at hfraction
      cases hfraction
    | none => rfl
  have hnoExponent : n.exponent = none := by
    cases hn : n.exponent with
    | some e =>
      have hletter : ∀ c ∈ ['e', 'E'], c.isDigit = false := by simp
      rw [hn, exponentText, List.all_cons, hletter e.letter e.letter_mem] at hexponent
      cases hexponent
    | none => rfl
  simp [Numeral.text, hnegative, hnoFraction, hnoExponent, fractionText, exponentText]

theorem carries_natUpTo (bound : Nat) (w : Written) :
    Carries (Document.natUpTo? bound) (Document.natUpTo? bound) w := by
  intro k h
  rw [Document.natUpTo?, Option.filter_eq_some_iff] at h ⊢
  refine ⟨?_, h.2⟩
  cases w with
  | number n =>
    have hread : (if (String.ofList n.text).toList.all Char.isDigit then
        some (Nat.ofDigitChars 10 (String.ofList n.text).toList 0) else none) = some k := h.1
    rw [String.toList_ofList] at hread
    split at hread
    · rename_i hdigits
      rw [numeral_of_isDigit hdigits] at hread
      show Yaml.Value.readNat? (String.ofList n.text) = some k
      rw [numeral_of_isDigit hdigits, readNat?_digits n.lead]
      exact hread
    · cases hread
  | _ => cases h.1

/-! ## Report declarations -/

/-- Whether a value is a string. -/
def isString : Json → Bool
  | .string _ => true
  | _ => false

/-- Whether a report declaration is an object that names its format by a string. JSON also takes an array with the
fields in their order, and an object for the name of the format; YAML takes neither. -/
def isPlainReport : Json → Bool
  | .object members => members.all fun (name, value) => name != some "type" || value.isString
  | _ => false

/-- Whether all report declarations of a step are such objects. -/
def hasPlainReports : Json → Bool
  | .object members => members.all fun (name, value) =>
      name != some "reports" || match value with
        | .array reports => reports.all isPlainReport
        | _ => true
  | _ => true

end Json

open Json

theorem Bindings.carries (w : Written) : Carries Bindings.decode? Bindings.decode? w := by
  intro b h
  simp only [Bindings.decode?, Option.bind_eq_bind, Option.bind_eq_some_iff] at h ⊢
  rcases h with ⟨values, hvalues, entries, hentries, hresult⟩
  rcases members?_alike hvalues with ⟨members, rfl, hobject, hyaml⟩
  refine ⟨_, hyaml, entries, ?_, hresult⟩
  clear hvalues hobject hyaml hresult
  induction members generalizing entries with
  | nil => exact hentries
  | cons member rest ih =>
    rcases member with ⟨name, value⟩
    simp only [valuesIn, List.map_cons, List.mapM_cons, Option.bind_eq_bind, Option.bind_eq_some_iff] at hentries
    rcases hentries with ⟨entry, hentry, others, hothers, hresult⟩
    rcases Option.map_eq_some_iff.1 hentry with ⟨s, hs, rfl⟩
    have hyaml := carries_text value s hs
    have hrest := ih others hothers
    simp only [yamlIn, List.map_cons, List.mapM_cons, Option.bind_eq_bind, Option.bind_eq_some_iff]
    exact ⟨(name, s), by rw [hyaml]; rfl, others, hrest, hresult⟩

theorem ReportFormat.carries {w : Written} (h : w.value.isString = true) :
    Carries ReportFormat.decode? ReportFormat.decode? w := by
  intro format hread
  cases w with
  | string pieces =>
    have hchoice : Document.choice? (Written.string pieces).value = Piece.meaning pieces := rfl
    have hyaml : Document.choice? (Written.string pieces).yaml = some ((Piece.meaning pieces).getD "") := rfl
    rw [ReportFormat.decode?, hchoice] at hread
    rw [ReportFormat.decode?, hyaml]
    cases hmeaning : Piece.meaning pieces with
    | none =>
      rw [hmeaning] at hread
      cases hread
    | some s =>
      rw [hmeaning] at hread
      exact hread
  | _ => cases h

theorem ReportDeclaration.carries {w : Written} (h : w.value.isPlainReport = true) :
    Carries ReportDeclaration.decode? ReportDeclaration.decode? w := by
  intro report hread
  rcases hobject : w.value with _ | _ | _ | _ | _ | members
  iterate 5
    rw [hobject] at h
    cases h
  simp only [ReportDeclaration.decode?, Option.bind_eq_bind, Option.bind_eq_some_iff] at hread ⊢
  rcases hread with ⟨fields, hrecord, format, hformat, paths, hpaths, hresult⟩
  rcases record?_alike hobject hrecord with ⟨known, rfl, hyaml, hknown⟩
  have hlist := field?_carries (fun v _ => carries_texts v) hpaths
  refine ⟨_, hyaml, format, field?_carries ?_ hformat, paths, hlist, hresult⟩
  intro v hv
  apply ReportFormat.carries
  rw [hobject, isPlainReport, List.all_eq_true] at h
  simpa using h _ (hknown _ hv)

theorem ReportDeclaration.carriesList {w : Written}
    (h : ∀ reports, w.value = .array reports → reports.all isPlainReport = true) :
    Carries ReportDeclaration.decodeList? ReportDeclaration.decodeList? w := by
  intro reports hread
  simp only [ReportDeclaration.decodeList?, Option.bind_eq_bind, Option.bind_eq_some_iff] at hread ⊢
  rcases hread with ⟨values, hlist, hread⟩
  rcases list?_alike hlist with ⟨items, rfl, harray, hyaml⟩
  refine ⟨_, hyaml, mapM_carries ?_ hread⟩
  intro item hitem
  apply ReportDeclaration.carries
  exact List.all_eq_true.1 (h _ harray) _ (List.mem_map_of_mem hitem)

namespace Step

/-- A step is read alike in both formats. -/
theorem carries {w : Written} (hobject : ∃ members, w.value = .object members) (h : w.value.hasPlainReports = true) :
    Carries Step.decode? Step.decode? w := by
  intro step hread
  rcases hobject with ⟨members, hobject⟩
  -- only the reports can be told apart by their formats
  have hreports : ∀ v : Written, (some "reports", v.value) ∈ members → ∀ reports, v.value = .array reports →
      reports.all isPlainReport = true := by
    intro v hv reports harray
    rw [hobject, hasPlainReports, List.all_eq_true] at h
    have hplain := h _ hv
    rw [harray] at hplain
    simpa using hplain
  simp only [Step.decode?, Option.bind_eq_bind, Option.bind_eq_some_iff] at hread ⊢
  rcases hread with ⟨fields, hrecord, id, hid, displayName, hdisplayName, command, hcommand, shell, hshell, environment,
    henvironment, entrypoint, hentrypoint, image, himage, reports, hdeclared, retries, hretries, timeout, htimeout,
    hresult⟩
  rcases record?_alike hobject hrecord with ⟨known, rfl, hyaml, hknown⟩
  have htext : ∀ {name s}, Document.field? (valuesIn known) name Document.text? "" = some s →
      Document.field? (yamlIn known) name Document.text? "" = some s :=
    fun hfield => field?_carries (fun v _ => carries_text v) hfield
  refine ⟨_, hyaml, id, htext hid, displayName, htext hdisplayName, command, htext hcommand, shell, ?_, environment, ?_,
    entrypoint, ?_, image, htext himage, reports, ?_, retries, ?_, timeout, ?_, hresult⟩
  · refine field?_carries (fun v _ s hs => ?_) hshell
    rcases Option.map_eq_some_iff.1 hs with ⟨name, hname, rfl⟩
    rw [carries_text v name hname]
    rfl
  · exact field?_carries (fun v _ => Bindings.carries v) henvironment
  · exact field?_carries (fun v _ => carries_texts v) hentrypoint
  · exact field?_carries (fun v hv => ReportDeclaration.carriesList (hreports v (hknown _ hv))) hdeclared
  · exact field?_carries (fun v _ => carries_natUpTo maxWord32 v) hretries
  · exact field?_carries (fun v _ => carries_natUpTo maxWord64 v) htimeout

/-- A portable text of an object is read as the same step in both formats, if its report declarations are plain. -/
theorem ofYaml?_of_portable :
    ∀ (text : String) (members : List (Option String × Json)) (step : Step),
      Json.parse? text = some (.object members) → Portable text → (Json.object members).hasPlainReports = true →
        ofJson? text = some step → ofYaml? text = some step := by
  intro text members step hparse hportable hplain hread
  rcases hportable with ⟨before, after, w, htext, hobject, hw, hbefore, hafter⟩
  have hvalue : w.value = .object members := by
    have hwritten := parse?_of_writes ⟨before, after, htext⟩
    rw [hparse] at hwritten
    exact (Option.some.inj hwritten).symm
  have hyaml : Yaml.parse? text = some w.yaml := by
    rw [Yaml.parse?, Yaml.Text.parse?, Yaml.tokens?_of_portable htext hobject hw hbefore hafter]
    show (Yaml.Text.ofTokens? w.tokens).bind _ = _
    rw [Yaml.Text.ofTokens?_tokens hobject]
    rfl
  have hdecode : Step.decode? w.value = some step := by
    rw [ofJson?, hparse] at hread
    rw [hvalue]
    exact hread
  rw [← hvalue] at hplain
  rw [ofYaml?, hyaml]
  exact carries hobject hplain step hdecode

/-- A step over two lines, with an escape, a line separator in a string, a tab between its members, a report declaration
and a number. -/
theorem ofYaml?_of_portable_lines :
    let text :=
      "\x7b\"id\": \"\\u0041 b\u2028\",\n\t\"reports\": [\x7b\"paths\": [\"x\"]\x7d], \"num_retries\": 2\x7d\n"
    let members : List (Option String × Json) := [(some "id", .text "A b\u2028"),
      (some "reports", .array [.record [("paths", .texts ["x"])]]), (some "num_retries", .number "2")]
    let step : Step := { id := "A b\u2028", reports := [{ paths := ["x"] }], retries := 2 }
    Json.parse? text = some (.object members) ∧ Portable text ∧ (Json.object members).hasPlainReports = true ∧
      ofJson? text = some step ∧ ofYaml? text = some step := by
  intro text members step
  let nothing := Blanks.none
  let blank : Blanks := ⟨[' '], by simp [isSpace]⟩
  let newLine : Blanks := ⟨['\n', '\t'], by simp [isSpace]⟩
  let lineEnd : Blanks := ⟨['\n'], by simp [isSpace]⟩
  let x := ['x'].pmap Piece.plain (by simp)
  let idName := ['i', 'd'].pmap Piece.plain (by simp)
  let idText := .unicode '0' '0' '4' '1' 0x41 (by decide) :: [' ', 'b', '\u2028'].pmap Piece.plain (by simp)
  let reportsName := ['r', 'e', 'p', 'o', 'r', 't', 's'].pmap Piece.plain (by simp)
  let pathsName := ['p', 'a', 't', 'h', 's'].pmap Piece.plain (by simp)
  let retriesName := ['n', 'u', 'm', '_', 'r', 'e', 't', 'r', 'i', 'e', 's'].pmap Piece.plain (by simp)
  let two : Numeral := ⟨false, ⟨['2'], by simp, by simp⟩, none, none, by simp⟩
  let report : Written := .object nothing
    (.last pathsName nothing blank (.array nothing (.last (.string x) nothing)) nothing)
  let w : Written := .object nothing
    (.more idName nothing blank (.string idText) nothing newLine
      (.more reportsName nothing blank (.array nothing (.last report nothing)) nothing blank
        (.last retriesName nothing blank (.number two) nothing)))
  have htext : text.toList = nothing.chars ++ (w.text ++ lineEnd.chars) := by decide +kernel
  have hvalue : w.value = .object members := rfl
  have hparse : Json.parse? text = some (.object members) := by
    rw [parse?_of_writes ⟨nothing, lineEnd, htext⟩, hvalue]
  have hportable : Portable text := ⟨nothing, lineEnd, w, htext, ⟨members, hvalue⟩, by decide +kernel, rfl, by decide⟩
  have hplain : (Json.object members).hasPlainReports = true := by decide +kernel
  have hread : ofJson? text = some step := by decide +kernel
  exact ⟨hparse, hportable, hplain, hread, ofYaml?_of_portable text members step hparse hportable hplain hread⟩

/-- Texts of objects that are steps in JSON and not, or other ones, in YAML: with a character that is written as two
surrogates, with one that YAML does not print, with a next line, with a separator behind a blank, with one in front of a
mark between documents, with a key that ends on the next line, with a tab in front, with a tab behind on a line of its
own, with a report declaration that is an array, and with one that names its format by an object. -/
theorem ofYaml?_ne_ofJson? :
    (ofJson? "\x7b\"id\":\"\\ud83d\\ude00\"\x7d" = some { id := "😀" } ∧
      ofYaml? "\x7b\"id\":\"\\ud83d\\ude00\"\x7d" = none) ∧
    (ofJson? "\x7b\"id\":\"a\x7fb\"\x7d" = some { id := "a\x7fb" } ∧ ofYaml? "\x7b\"id\":\"a\x7fb\"\x7d" = none) ∧
    (ofJson? "\x7b\"id\":\"a\x85b\"\x7d" = some { id := "a\x85b" } ∧
      ofYaml? "\x7b\"id\":\"a\x85b\"\x7d" = some { id := "a b" }) ∧
    (ofJson? "\x7b\"id\":\"a \u2028b\"\x7d" = some { id := "a \u2028b" } ∧
      ofYaml? "\x7b\"id\":\"a \u2028b\"\x7d" = some { id := "a\u2028b" }) ∧
    (ofJson? "\x7b\"id\":\"\u2028--- \"\x7d" = some { id := "\u2028--- " } ∧
      ofYaml? "\x7b\"id\":\"\u2028--- \"\x7d" = none) ∧
    (ofJson? "\x7b\"id\"\n:\"s\"\x7d" = some { id := "s" } ∧ ofYaml? "\x7b\"id\"\n:\"s\"\x7d" = none) ∧
    (ofJson? "\t\x7b\x7d" = some {} ∧ ofYaml? "\t\x7b\x7d" = none) ∧
    (ofJson? "\x7b\x7d\n\t" = some {} ∧ ofYaml? "\x7b\x7d\n\t" = none) ∧
    (ofJson? "\x7b\"reports\":[[\"junit\"]]\x7d" = some { reports := [{}] } ∧
      ofYaml? "\x7b\"reports\":[[\"junit\"]]\x7d" = none) ∧
    (ofJson? "\x7b\"reports\":[\x7b\"type\":\x7b\"junit\":null\x7d\x7d]\x7d" = some { reports := [{}] } ∧
      ofYaml? "\x7b\"reports\":[\x7b\"type\":\x7b\"junit\":null\x7d\x7d]\x7d" = none) := by
  decide +kernel

end Step

end Sidecar
