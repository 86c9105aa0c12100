import CodeHealth.Analyzer.Request
import CodeHealth.Proofs.Diagnostics.Counters
import CodeHealth.Proofs.Engine.Registry
import CodeHealth.Proofs.Value.Display

/-!
# Every request is answered

An analyzer that was built from a configuration answers every request, whatever has been requested
before. The status of an answer says what has become of the request: it is malformed, or the
analysis failed, or the answer is the complete payload. Counters of requests and statuses stay in
step.

Two kinds of requests are not answered: those whose text has a number in it with more digits than
are read, and those that break a limit with more digits than are shown. They leave no trace in the
counters. No limit up to `digitLimit` digits is of this kind (`RequestBody.Answerable`).

Only faults can end the analysis of a text by such an analyzer. None of them can be mistaken for a
malformed request, which is the reason why the three statuses exclude each other.
-/

namespace CodeHealth

/-! ### Bodies -/

namespace RequestBody

/-- A body is an object with a source. -/
def Holds (body : RequestBody) (code : String) : Prop :=
  ∃ members, body.decode = .ok (.object members) ∧ Entries.get? "code" members = some (.text code)

/-- The source of a body is longer than the limit, where a limit of zero stands for any length. -/
def Exceeds (limit : Int) (body : RequestBody) : Prop :=
  ∃ code, body.Holds code ∧ limit ≠ 0 ∧ limit < code.length

/-- Why a body is malformed. -/
inductive Malformed (limit : Int) (body : RequestBody) : Prop where
  | notObject : (∀ members, body.decode ≠ .ok (.object members)) → Malformed limit body
  | notText {members : List (String × Value)} : body.decode = .ok (.object members) →
      (∀ code, Entries.get? "code" members ≠ some (.text code)) → Malformed limit body
  | tooLong : body.Exceeds limit → Malformed limit body

/-- A body can be read, and a limit that it breaks can be shown. -/
structure Answerable (limit : Int) (body : RequestBody) : Prop where
  readable : ∀ digits, body.decode ≠ .error (.tooLong digits)
  showable : limit.natAbs < 10 ^ digitLimit ∨ ¬body.Exceeds limit

/-- A body that holds a source and keeps to the limit. -/
structure Acceptable (limit : Int) (body : RequestBody) (code : String) : Prop where
  holds : body.Holds code
  length_le : limit ≠ 0 → (code.length : Int) ≤ limit

section Bodies

variable {limit : Int} {body : RequestBody} {code code' : String}

theorem Holds.unique (h : body.Holds code) (h' : body.Holds code') : code = code' := by
  obtain ⟨members, hbody, hcode⟩ := h
  obtain ⟨members', hbody', hcode'⟩ := h'
  rw [hbody] at hbody'
  obtain rfl := Value.object.inj (Except.ok.inj hbody')
  rw [hcode] at hcode'
  exact Value.text.inj (Option.some.inj hcode')

theorem Acceptable.not_exceeds (h : body.Acceptable limit code) : ¬body.Exceeds limit := by
  rintro ⟨code', hcode', hne, hlong⟩
  obtain rfl := h.holds.unique hcode'
  have := h.length_le hne
  omega

theorem Acceptable.not_malformed (h : body.Acceptable limit code) : ¬body.Malformed limit := by
  obtain ⟨members, hbody, hcode⟩ := h.holds
  intro hmalformed
  cases hmalformed with
  | notObject hno => exact hno members hbody
  | notText hbody' hno =>
    rw [hbody] at hbody'
    obtain rfl := Value.object.inj (Except.ok.inj hbody')
    exact hno code hcode
  | tooLong hexceeds => exact h.not_exceeds hexceeds

theorem Acceptable.answerable (h : body.Acceptable limit code) : body.Answerable limit := by
  refine ⟨fun digits hdigits => ?_, .inr h.not_exceeds⟩
  obtain ⟨members, hbody, -⟩ := h.holds
  rw [hbody] at hdigits
  contradiction

end Bodies

end RequestBody

namespace Analyzer

section Parsing

variable {a : Analyzer} {limit : Int}

theorem checkLength_of_number? (h : a.config.performance.maxInputChars.number? = some (.int limit))
    (code : String) : a.checkLength code =
      if limit ≠ 0 ∧ limit < code.length then
        Fault.lift a.config.performance.maxInputChars.shown >>= fun shown =>
          .error (.problem (.invalidRequest (.text (tooLongMessage shown))
            (some [("length", .nat code.length)])))
      else .ok () := by
  simp only [checkLength, Value.truthy_of_number? h, Value.nat_gt_of_number? h]
  by_cases hzero : limit = 0
  · simp [hzero]
  · by_cases hlong : limit < code.length
    · simp [hzero, hlong]
      rfl
    · simp [hzero, hlong]
      rfl

/-- What comes of parsing a body: the source of an acceptable one, a refusal, or a fault. -/
inductive Parsed (limit : Int) (body : RequestBody) : Except Failure String → Prop where
  | source {code : String} : body.Acceptable limit code → Parsed limit body (.ok code)
  | refusal {message : Value} {details : Option (Entries String Value)} :
      body.Answerable limit → body.Malformed limit →
      Parsed limit body (.error (.problem (.invalidRequest message details)))
  | fault {f : Fault} : ¬body.Answerable limit → f.typeName = "ValueError" →
      Parsed limit body (.error (.fault f))

/-- A limit that is broken is reported, or it has too many digits for that. -/
theorem parsed_of_exceeds (h : a.config.performance.maxInputChars.number? = some (.int limit))
    {body : RequestBody} (hreadable : ∀ digits, body.decode ≠ .error (.tooLong digits))
    (hexceeds : body.Exceeds limit) (message : String → Value)
    (details : Option (Entries String Value)) :
    Parsed limit body (Fault.lift a.config.performance.maxInputChars.shown >>= fun shown =>
      .error (.problem (.invalidRequest (message shown) details))) := by
  have hshowable := Value.isShowable_of_number? h
  by_cases hlimit : limit.natAbs < 10 ^ digitLimit
  · rw [Value.shown_eq_ok (hshowable.mpr hlimit)]
    exact .refusal ⟨hreadable, .inl hlimit⟩ (.tooLong hexceeds)
  · rw [Value.shown_eq_error (Bool.eq_false_iff.mpr fun hshown => hlimit (hshowable.mp hshown))]
    refine .fault (fun hanswerable => ?_) rfl
    exact hanswerable.showable.elim hlimit fun hno => hno hexceeds

theorem parsed_parseRequest
    (h : a.config.performance.maxInputChars.number? = some (.int limit)) (body : RequestBody) :
    Parsed limit body (a.parseRequest body) := by
  rw [parseRequest]
  split
  · rename_i digits hbody
    exact .fault (fun hanswerable => hanswerable.readable digits hbody) rfl
  · rename_i members hbody
    have hreadable (digits : Nat) : body.decode ≠ .error (.tooLong digits) := by
      simp [hbody]
    split
    · rename_i code hcode
      have hholds : body.Holds code := ⟨members, hbody, hcode⟩
      rw [checkLength_of_number? h]
      by_cases hlong : limit ≠ 0 ∧ limit < code.length
      · rw [if_pos hlong]
        have hparsed := parsed_of_exceeds h hreadable ⟨code, hholds, hlong⟩
          (fun shown => .text (tooLongMessage shown)) (some [("length", .nat code.length)])
        cases hshown : a.config.performance.maxInputChars.shown with
        | error f => rwa [hshown] at hparsed
        | ok shown => rwa [hshown] at hparsed
      · rw [if_neg hlong]
        exact .source ⟨hholds, fun hne => Int.not_lt.mp fun hlt => hlong ⟨hne, hlt⟩⟩
    · rename_i hcode
      have hkept : ¬body.Exceeds limit := by
        rintro ⟨code, ⟨members', hbody', hcode'⟩, -⟩
        rw [hbody] at hbody'
        obtain rfl := Value.object.inj (Except.ok.inj hbody')
        exact hcode code hcode'
      exact .refusal ⟨hreadable, .inr hkept⟩ (.notText hbody hcode)
  · rename_i hreadable hbody
    have hkept : ¬body.Exceeds limit := fun ⟨_, ⟨members, hbody', _⟩, _⟩ => hbody members hbody'
    exact .refusal ⟨hreadable, .inr hkept⟩ (.notObject hbody)

end Parsing

section Analysis

variable (config : Config) (scanner : Scanner) (engine : Engine)

/-- A text is cleaned and measured without a failure. The rules may fail to run on it. -/
theorem profile_ofEngine_cases (d : Diagnostics) (s : Text) (parallel : Value) :
    (∃ f : Fault, engine.run ⟨.text s, .text s.clean, some config, scanner⟩ {} parallel = .error f ∧
      (ofEngine config scanner engine).profile d (.text s) parallel = (.error (.fault f), d)) ∨
    ∃ r, engine.run ⟨.text s, .text s.clean, some config, scanner⟩ {} parallel = .ok r ∧
      (ofEngine config scanner engine).profile d (.text s) parallel =
        (Fault.lift (Profile.aggregate config.scoring (.nat s.clean.complexity)
            (.double (s.duplication config.normalizeWhitespace.truthy)) r.smells
            (.nat s.lines.length)),
          d.noteRuleErrors r) := by
  have hclean : d.recover .preprocessing (.text s)
      (Source.text <$> (ofEngine config scanner engine).preprocess (.text s)) =
      (.text s.clean, d) := rfl
  have hcomplexity : d.measureComplexity (.text s.clean) = (s.clean.complexity, d) := rfl
  have hrun : (ofEngine config scanner engine).runRules
      ((ofEngine config scanner engine).context (.text s) (.text s.clean)) parallel =
      Fault.lift (engine.run ⟨.text s, .text s.clean, some config, scanner⟩ {} parallel) := rfl
  rw [profile]
  rw [hclean]
  dsimp only
  rw [hcomplexity]
  dsimp only
  rw [hrun]
  cases engine.run ⟨.text s, .text s.clean, some config, scanner⟩ {} parallel with
  | error f => exact .inl ⟨f, rfl, rfl⟩
  | ok r => exact .inr ⟨r, rfl, rfl⟩

/-- Nothing but a fault ends the analysis of a text. -/
theorem exists_fault_of_analyze_ofEngine {d : Diagnostics} {s : Text} {parallel elapsed : Value}
    {e : Failure}
    (h : ((ofEngine config scanner engine).analyze d (.text s) parallel elapsed).1 = .error e) :
    ∃ f : Fault, e = .fault f := by
  have hprofile {e : Failure}
      (h : ((ofEngine config scanner engine).profile d (.text s) parallel).1 = .error e) :
      ∃ f : Fault, e = .fault f := by
    obtain ⟨f, -, hp⟩ | ⟨r, -, hp⟩ := profile_ofEngine_cases config scanner engine d s parallel
    · rw [hp] at h
      exact ⟨f, (Except.error.inj h).symm⟩
    · rw [hp] at h
      cases haggregate : Profile.aggregate config.scoring (.nat s.clean.complexity)
          (.double (s.duplication config.normalizeWhitespace.truthy)) r.smells
          (.nat s.lines.length) with
      | ok profile =>
        rw [haggregate] at h
        contradiction
      | error f =>
        rw [haggregate] at h
        exact ⟨f, (Except.error.inj h).symm⟩
  rw [analyze] at h
  dsimp only at h
  split at h
  · exact hprofile h
  · rename_i f _
    exact ⟨f, (Except.error.inj h).symm⟩

/-- An analysis counts nothing but the failures of rules. -/
theorem count_analyze_ofEngine (d : Diagnostics) (s : Text) (parallel elapsed : Value)
    {c : Counter} (hc : c ≠ .rules) :
    ((ofEngine config scanner engine).analyze d (.text s) parallel elapsed).2.count c.name =
      d.count c.name := by
  have hprofile : ((ofEngine config scanner engine).profile d (.text s) parallel).2.count c.name =
      d.count c.name := by
    obtain ⟨f, -, hp⟩ | ⟨r, -, hp⟩ := profile_ofEngine_cases config scanner engine d s parallel
    · rw [hp]
    · rw [hp]
      exact Diagnostics.count_add_of_ne (Ne.symm hc) _
  rw [analyze]
  dsimp only
  split
  · rename_i d' hrecord
    rw [← hprofile]
    exact Diagnostics.count_of_record hrecord c.name
  · exact hprofile

end Analysis

end Analyzer

/-! ### Answers -/

def Value.memberNames : Value → List String
  | .object members => Entries.keys members
  | _ => []

namespace Response

/-- The counter that an answer belongs to. -/
def counter : Response → Counter
  | .accepted _ => .accepted
  | .refused _ => .refused
  | .failed _ => .failed

/-- The counters of requests, each with the status and the members of the answers that it counts. -/
def kinds : List (Counter × Int × List String) :=
  [(.accepted, 200,
      ["cyclomaticComplexity", "duplicationRatio", "linesOfCode", "codeSmells", "smellsCount",
       "technicalDebtRatio", "assessment"]),
   (.refused, 400, ["error"]),
   (.failed, 500, ["error"])]

end Response

namespace Analyzer

/-- Whether the analysis of a source, or writing out its profile, has no result. -/
def Fails (a : Analyzer) (d : Diagnostics) (code : String) (elapsed : Value) : Prop :=
  (∃ e, (a.analyze d (.text code.toList) .null elapsed).1 = .error e) ∨
    ∃ profile f, (a.analyze d (.text code.toList) .null elapsed).1 = .ok profile ∧
      profile.payload = .error f

/-- What an answer says about the request, for a limit on the length of the source. -/
structure Answered (a : Analyzer) (limit : Int) (d : Diagnostics) (body : RequestBody)
    (elapsed : Value) (response : Response) : Prop where
  /-- Counter, status and members go together. -/
  kind : ∃ status, response.status = .int status ∧
    (response.counter, status, response.toValue.memberNames) ∈ Response.kinds
  refused_iff : response.status = .int 400 ↔ body.Malformed limit
  failed_iff : response.status = .int 500 ↔
    ∃ code, body.Acceptable limit code ∧ a.Fails d code elapsed
  /-- An answer with a result is the whole payload of the profile. -/
  complete : response.status = .int 200 → ∃ code profile payload, body.Acceptable limit code ∧
    (a.analyze d (.text code.toList) .null elapsed).1 = .ok profile ∧
    profile.payload = .ok payload ∧ response = .accepted payload

section Handling

variable {a : Analyzer} {limit : Int} {body : RequestBody} {code : String}

theorem handleRequest_of_refused {message : Value} {details : Option (Entries String Value)}
    (h : a.parseRequest body = .error (.problem (.invalidRequest message details)))
    (d : Diagnostics) (elapsed : Value) : a.handleRequest d body elapsed =
      (.ok (.refused (.invalidRequest message details)), d.add .refused 1) := by
  rw [handleRequest]
  rw [h]
  rfl

theorem handleRequest_of_fault {f : Fault} (h : a.parseRequest body = .error (.fault f))
    (d : Diagnostics) (elapsed : Value) :
    a.handleRequest d body elapsed = (.error (.fault f), d) := by
  rw [handleRequest]
  rw [h]
  rfl

/-- A source is analyzed to the end, or the failure that ended its analysis is reported. -/
theorem handleRequest_of_parsed (h : a.parseRequest body = .ok code) (d : Diagnostics)
    (elapsed : Value) :
    (∃ profile payload, (a.analyze d (.text code.toList) .null elapsed).1 = .ok profile ∧
      profile.payload = .ok payload ∧ a.handleRequest d body elapsed = (.ok (.accepted payload),
        (a.analyze d (.text code.toList) .null elapsed).2.add .accepted 1)) ∨
    ∃ e, ((a.analyze d (.text code.toList) .null elapsed).1 = .error e ∨
        ∃ profile f, (a.analyze d (.text code.toList) .null elapsed).1 = .ok profile ∧
          profile.payload = .error f ∧ e = .fault f) ∧
      a.handleRequest d body elapsed = (.ok (.failed e.toProblem),
        (a.analyze d (.text code.toList) .null elapsed).2.add .failed 1) := by
  rw [handleRequest]
  rw [h]
  cases hanalysis : (a.analyze d (.text code.toList) .null elapsed).1 with
  | error e =>
    refine .inr ⟨e, .inl rfl, ?_⟩
    dsimp only
    rw [hanalysis]
    rfl
  | ok profile =>
    have hserialized :
        (do Fault.lift (← (a.analyze d (.text code.toList) .null elapsed).1).payload) =
          Fault.lift profile.payload := by
      rw [hanalysis]
      rfl
    dsimp only
    rw [hserialized]
    cases hpayload : profile.payload with
    | ok payload => exact .inl ⟨profile, payload, rfl, hpayload, rfl⟩
    | error f => exact .inr ⟨f, .inr ⟨profile, f, rfl, hpayload, rfl⟩, rfl⟩

end Handling

section Answering

variable {config : Config} {scanner : Scanner} {engine : Engine} {limit : Int} {body : RequestBody}
variable {code : String} {d : Diagnostics} {elapsed : Value}

theorem answered_refused {message : Value} {details : Option (Entries String Value)} {a : Analyzer}
    (h : body.Malformed limit) :
    a.Answered limit d body elapsed (.refused (.invalidRequest message details)) where
  kind := ⟨400, rfl, by simp [Response.kinds, Response.counter]; rfl⟩
  refused_iff := iff_of_true rfl h
  failed_iff := by
    refine iff_of_false (fun hstatus => ?_) fun ⟨code, hcode, _⟩ => hcode.not_malformed h
    exact absurd (Value.int.inj hstatus) (by decide)
  complete hstatus := absurd (Value.int.inj hstatus) (by decide)

theorem answered_failed {f : Fault} {a : Analyzer} (h : body.Acceptable limit code)
    (hfails : a.Fails d code elapsed) :
    a.Answered limit d body elapsed (.failed (Failure.fault f).toProblem) where
  kind := ⟨500, rfl, by simp [Response.kinds, Response.counter]; rfl⟩
  refused_iff := by
    refine iff_of_false (fun hstatus => ?_) h.not_malformed
    exact absurd (Value.int.inj hstatus) (by decide)
  failed_iff := iff_of_true rfl ⟨code, h, hfails⟩
  complete hstatus := absurd (Value.int.inj hstatus) (by decide)

theorem answered_accepted {profile : Profile} {payload : Profile.Payload} {a : Analyzer}
    (h : body.Acceptable limit code)
    (hanalysis : (a.analyze d (.text code.toList) .null elapsed).1 = .ok profile)
    (hpayload : profile.payload = .ok payload) :
    a.Answered limit d body elapsed (.accepted payload) where
  kind := ⟨200, rfl, by simp [Response.kinds, Response.counter]; rfl⟩
  refused_iff := by
    refine iff_of_false (fun hstatus => ?_) h.not_malformed
    exact absurd (Value.int.inj hstatus) (by decide)
  failed_iff := by
    refine iff_of_false (fun hstatus => absurd (Value.int.inj hstatus) (by decide)) ?_
    rintro ⟨code', hcode', hfails⟩
    obtain rfl := h.holds.unique hcode'.holds
    obtain ⟨e, he⟩ | ⟨profile', f, hprofile', hf⟩ := hfails
    · rw [hanalysis] at he
      contradiction
    · rw [hanalysis] at hprofile'
      obtain rfl := Except.ok.inj hprofile'
      rw [hpayload] at hf
      contradiction
  complete _ := ⟨code, profile, payload, h, hanalysis, hpayload, rfl⟩

end Answering

end Analyzer

/-! ### Histories -/

/-- What the counters of requests show, and that they have counted so many requests in all. -/
structure Diagnostics.Tallied (d : Diagnostics) (n : Counter → Nat) (requests : Nat) : Prop where
  accepted : d.count "requests_ok" = .int (n .accepted)
  refused : d.count "requests_invalid" = .int (n .refused)
  failed : d.count "requests_failed" = .int (n .failed)
  total : n .accepted + n .refused + n .failed = requests

namespace Diagnostics.Tallied

variable {d d' : Diagnostics} {n : Counter → Nat} {requests : Nat}

/-- The counters of requests are not affected by an analysis. -/
theorem of_count_eq (h : d.Tallied n requests)
    (hcount : ∀ c : Counter, c ≠ .rules → d'.count c.name = d.count c.name) :
    d'.Tallied n requests where
  accepted := (hcount .accepted (by decide)).trans h.accepted
  refused := (hcount .refused (by decide)).trans h.refused
  failed := (hcount .failed (by decide)).trans h.failed
  total := h.total

/-- A request adds one to the counter of its answer and nothing to the others. -/
theorem add_counter (h : d.Tallied n requests) (response : Response) :
    (d.add response.counter 1).Tallied
      (fun c => if c = response.counter then n c + 1 else n c) (requests + 1) := by
  have htotal := h.total
  have hcount (c : Counter) (hc : d.count c.name = .int (n c)) :
      (d.add response.counter 1).count c.name =
        .int ((if c = response.counter then n c + 1 else n c : Nat)) := by
    by_cases heq : c = response.counter
    · subst heq
      rw [count_add hc, if_pos rfl]
      rfl
    · rw [count_add_of_ne (Ne.symm heq), if_neg heq, hc]
  refine ⟨hcount .accepted h.accepted, hcount .refused h.refused, hcount .failed h.failed, ?_⟩
  cases response <;> simp [Response.counter] <;> omega

end Diagnostics.Tallied

namespace Analyzer

/-- The diagnostics after some requests. Each of them comes with the duration of its analysis. -/
def after (a : Analyzer) (d : Diagnostics) (history : List (RequestBody × Value)) : Diagnostics :=
  history.foldl (fun d request => (a.handleRequest d request.1 request.2).2) d

/-- One request, whatever the diagnostics show before it: it is answered and counted, or it ends in
a fault and nothing is counted. -/
theorem handleRequest_ofEngine (config : Config) (scanner : Scanner) (engine : Engine) {limit : Int}
    (hlimit : config.performance.maxInputChars.number? = some (.int limit)) {d : Diagnostics}
    {n : Counter → Nat} {requests : Nat} (hd : d.Tallied n requests) (body : RequestBody)
    (elapsed : Value) :
    (body.Answerable limit → ∃ response d',
      (ofEngine config scanner engine).handleRequest d body elapsed = (.ok response, d') ∧
      (ofEngine config scanner engine).Answered limit d body elapsed response ∧
      d'.Tallied (fun c => if c = response.counter then n c + 1 else n c) (requests + 1)) ∧
    (¬body.Answerable limit → ∃ f : Fault, f.typeName = "ValueError" ∧
      (ofEngine config scanner engine).handleRequest d body elapsed = (.error (.fault f), d)) := by
  have hparsed := parsed_parseRequest (a := ofEngine config scanner engine) hlimit body
  cases hparse : (ofEngine config scanner engine).parseRequest body with
  | ok code =>
    rw [hparse] at hparsed
    cases hparsed with
    | source hcode =>
      refine ⟨fun _ => ?_, fun hno => absurd hcode.answerable hno⟩
      have hanalyzed := hd.of_count_eq fun c hc =>
        count_analyze_ofEngine config scanner engine d code.toList .null elapsed hc
      obtain ⟨profile, payload, hanalysis, hpayload, h⟩ | ⟨e, he, h⟩ :=
        handleRequest_of_parsed hparse d elapsed
      · exact ⟨_, _, h, answered_accepted hcode hanalysis hpayload,
          hanalyzed.add_counter (.accepted payload)⟩
      · obtain ⟨f, rfl⟩ : ∃ f : Fault, e = .fault f := by
          obtain he | ⟨_, f, _, _, rfl⟩ := he
          · exact exists_fault_of_analyze_ofEngine config scanner engine he
          · exact ⟨f, rfl⟩
        have hfails : (ofEngine config scanner engine).Fails d code elapsed := by
          obtain he | ⟨profile, f', hprofile, hf, _⟩ := he
          · exact .inl ⟨_, he⟩
          · exact .inr ⟨profile, f', hprofile, hf⟩
        exact ⟨_, _, h, answered_failed hcode hfails, hanalyzed.add_counter (.failed _)⟩
  | error e =>
    rw [hparse] at hparsed
    cases hparsed with
    | refusal hanswerable hbody =>
      exact ⟨fun _ => ⟨_, _, handleRequest_of_refused hparse d elapsed, answered_refused hbody,
        hd.add_counter (.refused _)⟩, fun hno => absurd hanswerable hno⟩
    | fault hno hf =>
      exact ⟨fun hanswerable => absurd hanswerable hno,
        fun _ => ⟨_, hf, handleRequest_of_fault hparse d elapsed⟩⟩

/-- Every request in a history is counted once, unless it is not answered. -/
theorem tallied_after (config : Config) (scanner : Scanner) (engine : Engine) {limit : Int}
    (hlimit : config.performance.maxInputChars.number? = some (.int limit))
    (history : List (RequestBody × Value)) {d : Diagnostics} {n : Counter → Nat} {requests : Nat}
    (hd : d.Tallied n requests) :
    ∃ n' requests', ((ofEngine config scanner engine).after d history).Tallied n' requests' ∧
      ((∀ request ∈ history, request.1.Answerable limit) →
        requests' = requests + history.length) := by
  induction history generalizing d n requests with
  | nil => exact ⟨n, requests, hd, fun _ => rfl⟩
  | cons request history ih =>
    obtain ⟨hanswered, hfault⟩ :=
      handleRequest_ofEngine config scanner engine hlimit hd request.1 request.2
    rw [after, List.foldl_cons]
    by_cases hanswerable : request.1.Answerable limit
    · obtain ⟨response, d', hrequest, -, hd'⟩ := hanswered hanswerable
      obtain ⟨n', requests', hn', hcount⟩ := ih hd'
      rw [hrequest]
      refine ⟨n', requests', hn', fun hall => ?_⟩
      have := hcount (List.forall_mem_cons.mp hall).2
      rw [List.length_cons]
      omega
    · obtain ⟨f, -, hrequest⟩ := hfault hanswerable
      obtain ⟨n', requests', hn', -⟩ := ih hd
      rw [hrequest]
      exact ⟨n', requests', hn', fun hall => absurd (hall request List.mem_cons_self) hanswerable⟩

theorem eq_ofEngine_of_ofConfig {config : Config} {a : Analyzer} (h : ofConfig config = .ok a) :
    ∃ scanner engine, a = ofEngine config scanner engine := by
  obtain ⟨_, -, h⟩ := exists_of_bind_eq_ok h
  obtain ⟨engine, -, h⟩ := exists_of_bind_eq_ok h
  obtain ⟨scanner, -, h⟩ := exists_of_bind_eq_ok h
  exact ⟨scanner, engine, (Except.ok.inj h).symm⟩

/-- A valid configuration has an analyzer if it says of every rule whether it runs. -/
theorem exists_ofConfig {config : Config} (hvalid : config.validate.isOk = true)
    (hscanner : (Config.selectScanner config.structureScanner).isOk = true)
    (hrules : ∀ r ∈ Catalog.rules, ∃ v, config.isEnabled (.text r.id) (.text r.category) = .ok v) :
    ∃ a, ofConfig config = .ok a := by
  obtain ⟨count, hcount⟩ := Engine.exists_load (e := { config }) hrules
  have hengine : engine config = .ok (Engine.load { config } Catalog.rules).1 := by
    rw [engine]
    dsimp only
    rw [hcount]
    rfl
  cases hv : config.validate with
  | error e =>
    rw [hv] at hvalid
    contradiction
  | ok _ =>
    cases hs : Config.selectScanner config.structureScanner with
    | error e =>
      rw [hs] at hscanner
      contradiction
    | ok scanner =>
      refine ⟨ofEngine config scanner (Engine.load { config } Catalog.rules).1, ?_⟩
      rw [ofConfig]
      rw [hv, hengine, hs]
      rfl

/-- An analyzer that was built from a configuration with a whole number as the limit answers every
request after any others, unless the request has a number in it that is too long to be read or
breaks a limit that is too long to be shown. The answer tells what has become of the request, and
one of the counters of requests grows by one: the one that belongs to the status. -/
theorem handleRequest_after {config : Config} {a : Analyzer} {limit : Int}
    (ha : ofConfig config = .ok a)
    (hlimit : config.performance.maxInputChars.number? = some (.int limit)) (maxSamples : Value)
    (history : List (RequestBody × Value)) (body : RequestBody) (elapsed : Value) :
    ∃ n requests, (a.after { maxSamples } history).Tallied n requests ∧
      ((∀ request ∈ history, request.1.Answerable limit) → requests = history.length) ∧
      (body.Answerable limit → ∃ response d',
        a.handleRequest (a.after { maxSamples } history) body elapsed = (.ok response, d') ∧
        a.Answered limit (a.after { maxSamples } history) body elapsed response ∧
        d'.Tallied (fun c => if c = response.counter then n c + 1 else n c) (requests + 1)) ∧
      (¬body.Answerable limit → ∃ f : Fault, f.typeName = "ValueError" ∧
        a.handleRequest (a.after { maxSamples } history) body elapsed =
          (.error (.fault f), a.after { maxSamples } history)) := by
  obtain ⟨scanner, engine, rfl⟩ := eq_ofEngine_of_ofConfig ha
  have hnone : Diagnostics.Tallied { maxSamples } (fun _ => 0) 0 := ⟨rfl, rfl, rfl, rfl⟩
  obtain ⟨n, requests, hn, hcount⟩ := tallied_after config scanner engine hlimit history hnone
  rw [Nat.zero_add] at hcount
  exact ⟨n, requests, hn, hcount,
    handleRequest_ofEngine config scanner engine hlimit hn body elapsed⟩

/-- With a limit of two characters a longer source is refused, after a request that was
no object. -/
theorem handleRequest_after_refused :
    let config : Config := { performance := { maxInputChars := .int 2 } }
    ∃ a, ofConfig config = .ok a ∧ ∃ response d',
      a.handleRequest (a.after {} [(.value .null, .int 0)])
        (.value (.object [("code", .text "abc")])) (.int 0) = (.ok response, d') ∧
      response.status = .int 400 := by
  intro config
  obtain ⟨a, ha⟩ : ∃ a, ofConfig config = .ok a :=
    exists_ofConfig (by decide +kernel) (by decide +kernel) fun r _ => ⟨.bool true, rfl⟩
  have hlimit : config.performance.maxInputChars.number? = some (.int 2) := rfl
  obtain ⟨_, _, -, -, hanswered, -⟩ := handleRequest_after ha hlimit (.int 1000)
    [(.value .null, .int 0)] (.value (.object [("code", .text "abc")])) (.int 0)
  have hsmall : (2 : Int).natAbs < 10 ^ digitLimit :=
    (Value.isShowable_int 2).mp (by decide)
  obtain ⟨response, d', hrequest, hresponse, -⟩ := hanswered ⟨nofun, .inl hsmall⟩
  have hlong : (RequestBody.value (.object [("code", .text "abc")])).Exceeds 2 :=
    ⟨"abc", ⟨_, rfl, rfl⟩, by decide, by decide⟩
  exact ⟨a, ha, response, d', hrequest, hresponse.refused_iff.mpr (.tooLong hlong)⟩

end Analyzer

end CodeHealth
