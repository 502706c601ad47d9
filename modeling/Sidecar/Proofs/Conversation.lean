import Mathlib.Data.List.TakeWhile
import Sidecar.Image.Lookup

/-!
# The conversation with a container runtime

What a lookup of an image says to the runtime, for everything that the runtime may answer. There are at most
three calls: an inspection, and, only if the runtime runs and refuses, a pull with a second inspection behind it.
Every one of them names the image as it was given, and finds the same credentials. A lookup without an image, or
with a secret that cannot be read, says nothing at all.

The main statement is `lookup_conversation`. It is put together from what carrying out each part leads to
(`run_carryOut`, `inspect_carryOut`, `inspectOrPull_carryOut`).
-/

namespace Sidecar

/-! ## Blank texts -/

namespace Text

theorem dropEndWhile_eq_nil_iff {p : Char → Bool} {cs : List Char} :
    dropEndWhile p cs = [] ↔ ∀ c ∈ cs, p c = true := by
  simp [dropEndWhile, List.dropWhile_eq_nil_iff]

/-- Exactly the texts of blanks have nothing left when they are trimmed. -/
theorem trim_eq_empty_iff {s : String} : trim s = "" ↔ isBlankText s = true := by
  have hfirst : ∀ cs : List Char, (∀ c ∈ cs.dropWhile isBlank, isBlank c = true) ↔ cs.dropWhile isBlank = [] := by
    intro cs
    constructor
    · intro h
      -- what comes first after the blanks is none
      cases hrest : cs.dropWhile isBlank with
      | nil => rfl
      | cons c rest =>
        have hc := List.head?_dropWhile_not isBlank cs
        rw [hrest] at hc h
        simp [h c List.mem_cons_self] at hc
    · intro h
      simp [h]
  rw [trim, isBlankText, ← String.ofList_nil, String.ofList_inj, trimChars, dropEndWhile_eq_nil_iff, hfirst,
    List.dropWhile_eq_nil_iff, List.all_eq_true]

end Text

namespace Consultation

variable {α β σ : Type}

/-- The second of two consultations is carried out after the first one, and continues its transcript. -/
theorem carryOut_bind (partner : Partner σ) (x : Consultation α) (f : α → Consultation β) (t : Transcript)
    (s : σ) :
    (x >>= f).carryOut partner t s =
      let (a, t', s') := x.carryOut partner t s
      (f a).carryOut partner t' s' := by
  show (x.bind f).carryOut partner t s = _
  induction x generalizing t s with
  | finished value => rfl
  | log record rest ih => exact ih _ s
  | store content next ih =>
    simp only [Consultation.bind, carryOut]
    cases partner.storeFault with
    | none => exact ih (.ok ()) _ s
    | some cause => exact ih (.error cause) t s
  | discard rest ih => exact ih _ s
  | ask argv credentials next ih => exact ih _ _ _

/-- The transcript with a further call. -/
def Transcript.called (t : Transcript) (call : RuntimeCall) : Transcript :=
  { t with calls := t.calls ++ [call] }

/-- The transcript with a further record. -/
def Transcript.recorded (t : Transcript) (r : LogRecord) : Transcript :=
  { t with records := t.records ++ [r] }

theorem carryOut_log_bind (partner : Partner σ) (r : LogRecord) (x : Unit → Consultation α) (t : Transcript)
    (s : σ) : (Consultation.log r (pure ()) >>= x).carryOut partner t s = (x ()).carryOut partner (t.recorded r) s :=
  rfl

/-- What a call finds in the place of a variable. -/
def Transcript.found (t : Transcript) (credentials : Option CredentialsVariable) :
    Option (CredentialsVariable × List UInt8) :=
  credentials.bind fun c => t.stored.map fun content => (c, content)

end Consultation

namespace ImageLookup

variable {σ : Type}

open Consultation

/-! ## Replies -/

/-- What the runtime has printed for an action, or why there is nothing. -/
def printed (runtime : ContainerRuntime) (action : RuntimeAction) : ProgramReply → Except ImageError String
  | .error cause => .error (.runtime runtime.binary cause)
  | .ok output =>
    if output.exit = some 0 then .ok (Text.Utf8.decodeLossy output.stdout)
    else .error (.command runtime.binary action.name (Text.trim (Text.Utf8.decodeLossy output.stderr)))

/-- What an inspection comes to with a reply. -/
def inspected (runtime : ContainerRuntime) (reply : ProgramReply) : Except ImageError ImageMetadata :=
  (printed runtime .inspect reply).bind ImageMetadata.ofInspection

/-- The complaint of a runtime that has run and was not successful. -/
def refusal? : ProgramReply → Option String
  | .error _ => none
  | .ok output =>
    if output.exit = some 0 then none else some (Text.trim (Text.Utf8.decodeLossy output.stderr))

/-- What a runtime prints about an image may be malformed, but it is no refusal. -/
theorem ofInspection_ne_command (output binary action complaint : String) :
    ImageMetadata.ofInspection output ≠ .error (.command binary action complaint) := by
  unfold ImageMetadata.ofInspection
  dsimp only
  split
  · simp
  · split <;> simp

theorem inspected_ne_command {reply : ProgramReply} (h : refusal? reply = none) (runtime : ContainerRuntime)
    (binary action complaint : String) :
    inspected runtime reply ≠ .error (.command binary action complaint) := by
  cases reply with
  | error cause => simp [inspected, printed, Except.bind]
  | ok output =>
    by_cases hexit : output.exit = some 0
    · simp only [inspected, printed, hexit, if_true, Except.bind]
      exact ofInspection_ne_command _ _ _ _
    · simp [refusal?, hexit] at h

theorem inspected_of_refusal {reply : ProgramReply} {complaint : String} (h : refusal? reply = some complaint)
    (runtime : ContainerRuntime) :
    inspected runtime reply = .error (.command runtime.binary "inspect" complaint) := by
  cases reply with
  | error cause => simp [refusal?] at h
  | ok output =>
    by_cases hexit : output.exit = some 0
    · simp [refusal?, hexit] at h
    · simp only [refusal?, hexit, if_false, Option.some.injEq] at h
      simp only [inspected, printed, hexit, if_false, Except.bind, RuntimeAction.name, h]

/-! ## Calls -/

/-- The call that inspects an image. -/
def inspectCall (runtime : ContainerRuntime) (image : String)
    (credentials : Option (CredentialsVariable × List UInt8)) : RuntimeCall :=
  ⟨[runtime.binary, "image", "inspect", "--format", "\x7b\x7bjson .Config\x7d\x7d", image], credentials⟩

/-- The call that pulls an image. -/
def pullCall (runtime : ContainerRuntime) (image : String)
    (credentials : Option (CredentialsVariable × List UInt8)) : RuntimeCall :=
  ⟨[runtime.binary, "pull", "--quiet", image], credentials⟩

/-- What is logged when the runtime does not have an image. -/
def missingRecord (stepId image complaint : String) : LogRecord where
  level := .debug
  message := "image not available locally"
  fields := [("step_id", stepId), ("image", image), ("stderr", complaint)]

/-- What is logged when an image is about to be pulled. -/
def pullingRecord (runtime : ContainerRuntime) (stepId image : String) : LogRecord where
  level := .info
  message := "pulling image"
  fields := [("step_id", stepId), ("image", image), ("runtime", runtime.binary)]

section

variable (partner : Partner σ) (runtime : ContainerRuntime) (name? : Option CredentialsVariable)
  (stepId image : String) (t : Transcript) (s : σ)

theorem run_carryOut (action : RuntimeAction) (args : List String) :
    let call : RuntimeCall := ⟨runtime.binary :: args, t.found name?⟩
    let reply := partner.answer call s
    (run runtime name? action args).carryOut partner t s =
      (printed runtime action reply.1, t.called call, reply.2) := by
  intro call reply
  show (match reply.1 with
    | .error cause => _
    | .ok output => _, t.called call, reply.2) = (printed runtime action reply.1, t.called call, reply.2)
  cases reply.1 with
  | error cause => rfl
  | ok output => simp [printed, ProgramOutput.isSuccess]

theorem inspect_carryOut :
    let call := inspectCall runtime image (t.found name?)
    let reply := partner.answer call s
    (inspect runtime name? image).carryOut partner t s =
      (inspected runtime reply.1, t.called call, reply.2) := by
  intro call reply
  unfold inspect
  rw [carryOut_bind, run_carryOut]
  rfl

/-- An inspection that is not refused is all there is. -/
theorem inspectOrPull_of_answered :
    let inspect := inspectCall runtime image (t.found name?)
    let first := partner.answer inspect s
    refusal? first.1 = none →
    (inspectOrPull runtime name? stepId image).carryOut partner t s =
      (inspected runtime first.1, t.called inspect, first.2) := by
  intro inspect first hrefusal
  unfold inspectOrPull
  rw [carryOut_bind, inspect_carryOut]
  dsimp only
  generalize hresult : inspected runtime _ = result
  cases result with
  | ok metadata => rfl
  | error e =>
    cases e with
    | command binary action complaint =>
      exact absurd hresult (inspected_ne_command hrefusal runtime binary action complaint)
    | emptyReference => rfl
    | invalidSecret cause => rfl
    | runtime binary cause => rfl
    | metadata cause => rfl
    | credentials cause => rfl

/-- After a refusal the image is pulled, and inspected once more if that was successful. -/
theorem inspectOrPull_of_refusal :
    let inspect := inspectCall runtime image (t.found name?)
    let pull := pullCall runtime image (t.found name?)
    let first := partner.answer inspect s
    let second := partner.answer pull first.2
    let third := partner.answer inspect second.2
    ∀ complaint, refusal? first.1 = some complaint →
    let told : Transcript := { t with
      calls := t.calls ++ [inspect, pull]
      records := t.records ++ [missingRecord stepId image complaint, pullingRecord runtime stepId image] }
    (inspectOrPull runtime name? stepId image).carryOut partner t s =
      match printed runtime .pull second.1 with
      | .error e => (.error e, told, second.2)
      | .ok _ => (inspected runtime third.1, told.called inspect, third.2) := by
  intro inspect pull first second third complaint hrefusal told
  unfold inspectOrPull
  rw [carryOut_bind, inspect_carryOut]
  dsimp only
  rw [inspected_of_refusal hrefusal]
  dsimp only
  rw [carryOut_log_bind, carryOut_log_bind, carryOut_bind, run_carryOut]
  have htold : (((t.called inspect).recorded (missingRecord stepId image complaint)).recorded
      (pullingRecord runtime stepId image)).called pull = told := by
    simp [told, Transcript.called, Transcript.recorded]
  show Consultation.carryOut partner
    (match printed runtime .pull second.1 with
      | .error e => pure (.error e)
      | .ok _ => ImageLookup.inspect runtime name? image)
    ((((t.called inspect).recorded (missingRecord stepId image complaint)).recorded
      (pullingRecord runtime stepId image)).called pull) second.2 = _
  rw [htold]
  cases printed runtime .pull second.1 with
  | error e => rfl
  | ok text => exact inspect_carryOut partner runtime name? image told second.2

/-- Nothing is stored or removed on the way. -/
theorem inspectOrPull_stored :
    ((inspectOrPull runtime name? stepId image).carryOut partner t s).2.1.stored = t.stored := by
  cases hrefusal : refusal? (partner.answer (inspectCall runtime image (t.found name?)) s).1 with
  | none =>
    rw [inspectOrPull_of_answered partner runtime name? stepId image t s hrefusal]
    rfl
  | some complaint =>
    rw [inspectOrPull_of_refusal partner runtime name? stepId image t s complaint hrefusal]
    split <;> rfl

end

/-! ## Secrets -/

/-- What calls find as credentials if there is a certain secret: nothing without one or with a blank one, and
else what the secret is the Base64 form of. -/
inductive Presents (runtime : ContainerRuntime) :
    Option String → Option (CredentialsVariable × List UInt8) → Prop
  | nothing : Presents runtime none none
  | blank {text : String} (h : Text.isBlankText text = true) : Presents runtime (some text) none
  | decoded {text : String} {content : List UInt8} (h : Text.isBlankText text = false)
      (hdecode : Text.Base64.decode (Text.Utf8.encode (Text.trim text)) = .ok content) :
      Presents runtime (some text) (some (runtime.credentials, content))

theorem usableSecret?_of_blank {text : String} (h : Text.isBlankText text = true) :
    usableSecret? (some text) = none := by
  simp [usableSecret?, Text.trim_eq_empty_iff.2 h]

theorem usableSecret?_of_not_blank {text : String} (h : Text.isBlankText text = false) :
    usableSecret? (some text) = some (Text.trim text) := by
  have htrim : Text.trim text ≠ "" := by
    intro hempty
    rw [Text.trim_eq_empty_iff.1 hempty] at h
    cases h
  simp [usableSecret?, htrim]

/-- A secret that presents nothing cannot be decoded. -/
theorem presents_or_invalid (runtime : ContainerRuntime) (secret : Option String) :
    (∃ credentials, Presents runtime secret credentials) ∨
    ∃ text cause, secret = some text ∧ Text.isBlankText text = false ∧
      Text.Base64.decode (Text.Utf8.encode (Text.trim text)) = .error cause := by
  cases secret with
  | none => exact .inl ⟨none, .nothing⟩
  | some text =>
    cases hblank : Text.isBlankText text with
    | true => exact .inl ⟨none, .blank hblank⟩
    | false =>
      cases hdecode : Text.Base64.decode (Text.Utf8.encode (Text.trim text)) with
      | error cause => exact .inr ⟨text, cause, rfl, hblank, hdecode⟩
      | ok content => exact .inl ⟨_, .decoded hblank hdecode⟩

/-! ## Lookups -/

section

variable (partner : Partner σ) (runtime : ContainerRuntime) (stepId : String) (s : σ)

section

variable {image : String} {secret : Option String}

theorem lookup_of_blank (himage : Text.isBlankText image = true) :
    (lookup runtime stepId image secret).carryOut partner {} s = (.error .emptyReference, {}, s) := by
  simp only [lookup, himage, if_true]
  rfl

theorem lookup_of_invalid_secret (himage : Text.isBlankText image = false) {text : String}
    {cause : Text.Base64.DecodeError} (hblank : Text.isBlankText text = false)
    (hdecode : Text.Base64.decode (Text.Utf8.encode (Text.trim text)) = .error cause) :
    (lookup runtime stepId image (some text)).carryOut partner {} s = (.error (.invalidSecret cause), {}, s) := by
  simp only [lookup, himage, Bool.false_eq_true, if_false, usableSecret?_of_not_blank hblank, hdecode]
  rfl

theorem lookup_of_store_fault (himage : Text.isBlankText image = false)
    {credentials : CredentialsVariable × List UInt8} (hpresents : Presents runtime secret (some credentials))
    {cause : SystemError} (hfault : partner.storeFault = some cause) :
    (lookup runtime stepId image secret).carryOut partner {} s = (.error (.credentials cause), {}, s) := by
  cases hpresents with
  | decoded hblank hdecode =>
    simp only [lookup, himage, Bool.false_eq_true, if_false, usableSecret?_of_not_blank hblank, hdecode, carryOut,
      hfault]
    rfl

/-- What is presented is stored while the image is inspected or pulled, and no longer. -/
theorem lookup_of_presents (himage : Text.isBlankText image = false)
    {credentials : Option (CredentialsVariable × List UInt8)} (hpresents : Presents runtime secret credentials)
    (hstore : credentials = none ∨ partner.storeFault = none) :
    let consulted := (inspectOrPull runtime (credentials.map (·.1)) stepId image).carryOut partner
      { stored := credentials.map (·.2) } s
    (lookup runtime stepId image secret).carryOut partner {} s =
      (consulted.1, { consulted.2.1 with stored := none }, consulted.2.2) := by
  intro consulted
  -- without credentials nothing is stored, so there is nothing to remove either
  have hnothing : credentials = none → usableSecret? secret = none →
      (lookup runtime stepId image secret).carryOut partner {} s =
        (consulted.1, { consulted.2.1 with stored := none }, consulted.2.2) := by
    intro hcredentials husable
    subst hcredentials
    have hstored : consulted.2.1.stored = none := inspectOrPull_stored partner runtime none stepId image {} s
    have hlookup : (lookup runtime stepId image secret).carryOut partner {} s = consulted := by
      simp only [lookup, himage, Bool.false_eq_true, if_false, husable]
      rfl
    rw [hlookup]
    obtain ⟨value, ⟨calls, records, stored⟩, s'⟩ := consulted
    cases hstored
    rfl
  cases hpresents with
  | nothing => exact hnothing rfl rfl
  | blank hblank => exact hnothing rfl (usableSecret?_of_blank hblank)
  | decoded hblank hdecode =>
    have hfault : partner.storeFault = none := hstore.resolve_left (by simp)
    simp only [lookup, himage, Bool.false_eq_true, if_false, usableSecret?_of_not_blank hblank, hdecode, carryOut,
      hfault]
    rw [carryOut_bind]
    rfl

theorem found_of_stored (credentials : Option (CredentialsVariable × List UInt8)) :
    ({ stored := credentials.map (·.2) } : Transcript).found (credentials.map (·.1)) = credentials := by
  cases credentials <;> rfl

theorem lookup_of_answered (himage : Text.isBlankText image = false)
    {credentials : Option (CredentialsVariable × List UInt8)} (hpresents : Presents runtime secret credentials)
    (hstore : credentials = none ∨ partner.storeFault = none) :
    let inspect := inspectCall runtime image credentials
    let first := partner.answer inspect s
    refusal? first.1 = none →
    (lookup runtime stepId image secret).carryOut partner {} s =
      (inspected runtime first.1, { calls := [inspect] }, first.2) := by
  intro inspect first hrefusal
  have hfound := found_of_stored credentials
  rw [lookup_of_presents partner runtime stepId s himage hpresents hstore, inspectOrPull_of_answered, hfound]
  · rfl
  · rw [hfound]
    exact hrefusal

theorem lookup_of_refusal (himage : Text.isBlankText image = false)
    {credentials : Option (CredentialsVariable × List UInt8)} (hpresents : Presents runtime secret credentials)
    (hstore : credentials = none ∨ partner.storeFault = none) :
    let inspect := inspectCall runtime image credentials
    let pull := pullCall runtime image credentials
    let first := partner.answer inspect s
    let second := partner.answer pull first.2
    let third := partner.answer inspect second.2
    ∀ complaint, refusal? first.1 = some complaint →
    let records := [missingRecord stepId image complaint, pullingRecord runtime stepId image]
    (lookup runtime stepId image secret).carryOut partner {} s =
      match printed runtime .pull second.1 with
      | .error e => (.error e, { calls := [inspect, pull], records := records }, second.2)
      | .ok _ =>
        (inspected runtime third.1, { calls := [inspect, pull, inspect], records := records }, third.2) := by
  intro inspect pull first second third complaint hrefusal records
  have hfound := found_of_stored credentials
  have hconsulted := inspectOrPull_of_refusal partner runtime (credentials.map (·.1)) stepId image
    { stored := credentials.map (·.2) } s complaint (by rw [hfound]; exact hrefusal)
  rw [hfound] at hconsulted
  change _ = match printed runtime .pull second.1 with
    | .error e => _
    | .ok _ => _ at hconsulted
  rw [lookup_of_presents partner runtime stepId s himage hpresents hstore, hconsulted]
  cases printed runtime .pull second.1 with
  | error e => rfl
  | ok text => rfl

end

/-- A lookup that asks anything at all presents the credentials of its secret in each of its calls, and these are
an inspection, a pull that follows it, and an inspection that follows the pull, or fewer. -/
theorem lookup_calls (image : String) (secret : Option String) :
    let calls := ((lookup runtime stepId image secret).carryOut partner {} s).2.1.calls
    calls = [] ∨ ∃ credentials, Presents runtime secret credentials ∧
      let inspect := inspectCall runtime image credentials
      let pull := pullCall runtime image credentials
      (calls = [inspect] ∨ calls = [inspect, pull] ∨ calls = [inspect, pull, inspect]) := by
  intro calls
  cases himage : Text.isBlankText image with
  | true => exact .inl (by simp only [calls, lookup_of_blank partner runtime stepId s himage])
  | false =>
    rcases presents_or_invalid runtime secret with ⟨credentials, hpresents⟩ | ⟨text, cause, rfl, hblank, hdecode⟩
    · by_cases hstore : credentials = none ∨ partner.storeFault = none
      · refine .inr ⟨credentials, hpresents, ?_⟩
        intro inspect pull
        cases hrefusal : refusal? (partner.answer inspect s).1 with
        | none =>
          left
          simp only [calls, lookup_of_answered partner runtime stepId s himage hpresents hstore hrefusal]
          rfl
        | some complaint =>
          right
          simp only [calls, lookup_of_refusal partner runtime stepId s himage hpresents hstore complaint hrefusal]
          split
          · exact .inl rfl
          · exact .inr rfl
      · -- there is something to store, and it cannot be stored
        left
        rw [not_or, ← ne_eq, Option.ne_none_iff_exists', ← ne_eq, Option.ne_none_iff_exists'] at hstore
        obtain ⟨⟨presented, rfl⟩, cause, hfault⟩ := hstore
        simp only [calls, lookup_of_store_fault partner runtime stepId s himage hpresents hfault]
    · exact .inl (by simp only [calls, lookup_of_invalid_secret partner runtime stepId s himage hblank hdecode])

end

/-- A lookup of a blank image, or with a secret that cannot be read, ends before anything is asked. Any other
lookup inspects the image. If the runtime cannot be run, or is successful, this is all. If it refuses, the image
is pulled, and if that is successful it is inspected once more, and whatever comes of this is the result. So there
are at most three calls and at most one pull. Each of them names the image, and presents the credentials of the
secret, which are gone at the end. -/
theorem lookup_conversation (partner : Partner σ) (runtime : ContainerRuntime) (stepId image : String)
    (secret : Option String) (s : σ) :
    let result := (lookup runtime stepId image secret).carryOut partner {} s
    let calls := result.2.1.calls
    (Text.isBlankText image = true → result = (.error .emptyReference, {}, s)) ∧
    (Text.isBlankText image = false → ∀ text cause, secret = some text → Text.isBlankText text = false →
      Text.Base64.decode (Text.Utf8.encode (Text.trim text)) = .error cause →
      result = (.error (.invalidSecret cause), {}, s)) ∧
    (Text.isBlankText image = false → ∀ credentials, Presents runtime secret credentials →
      (∀ cause, credentials ≠ none → partner.storeFault = some cause →
        result = (.error (.credentials cause), {}, s)) ∧
      (credentials = none ∨ partner.storeFault = none →
        let inspect := inspectCall runtime image credentials
        let pull := pullCall runtime image credentials
        let first := partner.answer inspect s
        let second := partner.answer pull first.2
        let third := partner.answer inspect second.2
        (refusal? first.1 = none → result = (inspected runtime first.1, { calls := [inspect] }, first.2)) ∧
        (∀ complaint, refusal? first.1 = some complaint →
          let records := [missingRecord stepId image complaint, pullingRecord runtime stepId image]
          (∀ e, printed runtime .pull second.1 = .error e →
            result = (.error e, { calls := [inspect, pull], records := records }, second.2)) ∧
          (∀ text, printed runtime .pull second.1 = .ok text →
            result = (inspected runtime third.1,
              { calls := [inspect, pull, inspect], records := records }, third.2))))) ∧
    calls.length ≤ 3 ∧
    calls.countP (fun call => call.argv[1]? = some "pull") ≤ 1 ∧
    ∀ call ∈ calls, call.argv.getLast? = some image ∧ Presents runtime secret call.credentials := by
  intro result calls
  refine ⟨?_, ?_, ?_, ?_⟩
  · intro himage
    exact lookup_of_blank partner runtime stepId s himage
  · rintro himage text cause rfl hblank hdecode
    exact lookup_of_invalid_secret partner runtime stepId s himage hblank hdecode
  · intro himage credentials hpresents
    constructor
    · intro cause hsome hfault
      obtain ⟨presented, rfl⟩ := Option.ne_none_iff_exists'.1 hsome
      exact lookup_of_store_fault partner runtime stepId s himage hpresents hfault
    · intro hstore inspect pull first second third
      constructor
      · intro hrefusal
        exact lookup_of_answered partner runtime stepId s himage hpresents hstore hrefusal
      · intro complaint hrefusal records
        have hresult := lookup_of_refusal partner runtime stepId s himage hpresents hstore complaint hrefusal
        constructor
        · intro e hpull
          exact hresult.trans (by rw [hpull])
        · intro text hpull
          exact hresult.trans (by rw [hpull])
  · rcases lookup_calls partner runtime stepId s image secret with h | ⟨credentials, hpresents, h | h | h⟩
    · rw [show calls = _ from h]
      simp
    · rw [show calls = _ from h]
      simp [inspectCall, hpresents]
    · rw [show calls = _ from h]
      simp [inspectCall, pullCall, hpresents]
    · rw [show calls = _ from h]
      simp [inspectCall, pullCall, hpresents]

/-- A runtime that has no image until it has pulled it, and then knows the default command. -/
def pullingPartner : Partner Bool where
  answer call pulled :=
    if call.argv[1]? = some "pull" then (.ok {}, true)
    else if pulled then (.ok { stdout := Text.Utf8.encode "\x7b\x22Cmd\x22:[\x22serve\x22]\x7d" }, pulled)
    else (.ok { exit := some 1 }, pulled)

/-- The image of a database is pulled with credentials and then inspected, but not without a name for it, and not
with a secret that is no Base64. -/
theorem lookup_conversation_pulling :
    let inspect := inspectCall .podman "redis" (some (⟨"REGISTRY_AUTH_FILE", .file⟩, [97, 98]))
    let pull := pullCall .podman "redis" (some (⟨"REGISTRY_AUTH_FILE", .file⟩, [97, 98]))
    (lookup .podman "db" " " (some "%%%")).carryOut pullingPartner {} false =
      (.error .emptyReference, {}, false) ∧
    (lookup .podman "db" "redis" (some "%%%")).carryOut pullingPartner {} false =
      (.error (.invalidSecret (.invalidByte 0 37)), {}, false) ∧
    (lookup .podman "db" "redis" (some " YWI= ")).carryOut pullingPartner {} false =
      (.ok ⟨[], ["serve"]⟩, { calls := [inspect, pull, inspect],
                              records := [missingRecord "db" "redis" "", pullingRecord .podman "db" "redis"] },
        true) := by
  intro inspect pull
  refine ⟨?_, ?_, ?_⟩
  · exact (lookup_conversation pullingPartner .podman "db" " " (some "%%%") false).1 (by decide)
  · exact (lookup_conversation pullingPartner .podman "db" "redis" (some "%%%") false).2.1 (by decide) "%%%" _ rfl
      (by decide) (by decide +kernel)
  · have hpresents : Presents .podman (some " YWI= ") (some (⟨"REGISTRY_AUTH_FILE", .file⟩, [97, 98])) :=
      .decoded (by decide) (by decide +kernel)
    have hanswers := ((lookup_conversation pullingPartner .podman "db" "redis" (some " YWI= ") false).2.2.1
      (by decide) _ hpresents).2 (.inr rfl)
    have hpulled := (hanswers.2 "" (by decide +kernel)).2 "" (by decide +kernel)
    rw [hpulled]
    have hinspected : inspected .podman (pullingPartner.answer inspect true).1 = .ok ⟨[], ["serve"]⟩ := by
      decide +kernel
    exact congrArg (·, _, true) hinspected

end ImageLookup

end Sidecar
