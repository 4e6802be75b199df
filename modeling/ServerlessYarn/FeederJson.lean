/-
  ServerlessYARN model — the documents of the feeder as JSON.

  Names are pasted into the documents as they are.  A document is well formed iff
  what is pasted can stand in a string, which the filters of the feeder do not
  ensure: control characters and bytes that are not UTF-8 pass, and so do quotes
  and backslashes in the names of interfaces.

  * `netDoc_iff`, `procDoc_iff`: one document is well formed iff its host tag and its
    device or command tag can stand in a string;
  * `documents_well_formed_iff`: the documents of a sample are well formed iff the
    host tag and every name they are about can.
-/
import ServerlessYarn.FeederTags

namespace ServerlessYarn

open Json

/-! ## Numbers -/

theorem digitChar_byte {d : ℕ} (h : d < 10) : UInt8.ofNat d.digitChar.toNat = digitByte d := by
  rw [Nat.toNat_digitChar_of_lt_ten h]
  rfl

theorem decimal_of_lt {n : ℕ} (h : n < 10) : decimal n = [digitByte n] := by
  rw [decimal_eq, Nat.toDigits_of_lt_base h, List.map_singleton, digitChar_byte h]

/-- The digits of a number, the last one apart. -/
theorem decimal_of_ge {n : ℕ} (h : 10 ≤ n) :
    decimal n = decimal (n / 10 : ℕ) ++ [digitByte (n % 10)] := by
  rw [decimal_eq, decimal_eq, Nat.toDigits_of_base_le (by decide) h, List.map_append, List.map_singleton,
    digitChar_byte (Nat.mod_lt n (by decide))]

theorem isDigit_digitByte {d : ℕ} (h : d < 10) : Json.isDigit (digitByte d) = true := by
  interval_cases d <;> rfl

/-- Numbers have no leading zeros. -/
theorem run_decimal {m : NumMode} (hm : m = .start ∨ m = .minus) (n : ℕ) :
    runSteps numStep m (decimal n) = some (if n = 0 then .zero else .int) := by
  induction n using Nat.strong_induction_on with
  | _ n ih =>
    by_cases hsmall : n < 10
    · rw [decimal_of_lt hsmall]
      rcases hm with rfl | rfl <;> interval_cases n <;> rfl
    · have hge : 10 ≤ n := Nat.le_of_not_lt hsmall
      have hrest := ih (n / 10) (Nat.div_lt_self (by omega) (by decide))
      have hn : n ≠ 0 := by omega
      have hn10 : n / 10 ≠ 0 := by omega
      rw [if_neg hn10] at hrest
      rw [decimal_of_ge hge, runSteps_concat, hrest, Option.bind_some, if_neg hn]
      unfold numStep
      simp only [isDigit_digitByte (Nat.mod_lt n (by decide)), if_true]

theorem done_decimal (n : ℕ) : (if n = 0 then NumMode.zero else .int).done = true := by
  split_ifs <;> rfl

theorem isNumber_decimal (z : ℤ) : isNumber (decimal z) = true := by
  unfold isNumber
  cases z with
  | ofNat n =>
    have hrun := run_decimal (Or.inl rfl) n
    show ((runSteps numStep .start (decimal (n : ℕ))).map _).getD false = true
    rw [hrun]
    exact done_decimal n
  | negSucc n =>
    have hminus : decimal (Int.negSucc n) = 45 :: decimal (n + 1 : ℕ) := by
      have htext : toString (Int.negSucc n) = "-" ++ toString (n + 1) := rfl
      unfold decimal ascii
      rw [htext, String.toList_append]
      rfl
    have hsign : numStep .start 45 = some .minus := rfl
    rw [hminus, runSteps, hsign, Option.bind_some, run_decimal (Or.inr rfl)]
    exact done_decimal (n + 1)

/-- What `%.2f` prints is a number. -/
theorem isNumber_text (v : Printed) : isNumber v.text = true := by
  have htwo : ∀ m : NumMode, m = .zero ∨ m = .int → ∀ d d' : ℕ, d < 10 → d' < 10 →
      runSteps numStep m [46, digitByte d, digitByte d'] = some .frac := by
    intro m hm d d' hd hd'
    have hpoint : numStep m 46 = some .point := by rcases hm with rfl | rfl <;> rfl
    rw [runSteps, hpoint, Option.bind_some, runSteps, numStep, if_pos (isDigit_digitByte hd), Option.bind_some,
      runSteps, numStep, if_pos (isDigit_digitByte hd')]
    rfl
  rw [v.text_eq]
  unfold isNumber Printed.digits
  rw [runSteps_append, run_decimal (Or.inl rfl), Option.bind_some, htwo _ _ _ _ (Nat.mod_lt _ (by decide))
    (Nat.mod_lt _ (by decide))]
  · rfl
  · split_ifs
    · exact Or.inl rfl
    · exact Or.inr rfl

/-! ## The fixed part of a document -/

/-- The object that a document should be. -/
def docValue (metric ts value : CString) (tags : List (CString × Value)) : Value :=
  .obj [(ascii "metric", .str metric), (ascii "timestamp", .num ts), (ascii "value", .num value),
    (ascii "tags", .obj tags)]

/-- **Well-formed documents**: a JSON object with the members of a document, where
    each tag is a single string. -/
def WellFormedDoc (names : List CString) (doc : CString) : Prop :=
  ∃ (metric ts value : CString) (tags : List CString), tags.length = names.length ∧
    Denotes doc (docValue metric ts value (names.zip (tags.map Value.str)))

/-- A document up to the value of its host tag. -/
def docHead (metric : CString) (ts : ℤ) (value : CString) : CString :=
  ascii "\x7b\"metric\": \"" ++ metric ++ ascii "\", \"timestamp\": " ++ decimal ts ++
    ascii ", \"value\": " ++ value ++ ascii ", \"tags\": \x7b\"host\": \""

/-- The tokens of this part. -/
def headTokens (metric ts value : CString) : List Token :=
  [.lbrace, .str (ascii "metric"), .colon, .str metric, .comma, .str (ascii "timestamp"), .colon, .num ts,
    .comma, .str (ascii "value"), .colon, .num value, .comma, .str (ascii "tags"), .colon, .lbrace,
    .str (ascii "host"), .colon]

/-- What the documents are made of apart from the tags. -/
structure DocArgs.Plain (d : DocArgs) : Prop where
  body : IsBody d.metric
  isAscii : IsAscii d.metric
  value : isNumber d.value = true

theorem run_docHead {d : DocArgs} (h : d.Plain) :
    runSteps lexStep (.outside, []) (docHead d.metric d.ts d.value) =
      some (.str .plain [], headTokens d.metric (decimal d.ts) d.value) := by
  have hsplit : docHead d.metric d.ts d.value =
      ascii "\x7b\"metric\": \"" ++ ((d.metric ++ [34]) ++
        (ascii ", \"timestamp\": " ++ ((decimal d.ts ++ [44]) ++
          (ascii " \"value\": " ++ ((d.value ++ [44]) ++
            ascii " \"tags\": \x7b\"host\": \""))))) := by
    unfold docHead
    simp [ascii]
  have hopen : runSteps lexStep (.outside, []) (ascii "\x7b\"metric\": \"") =
      some (.str .plain [], [.lbrace, .str (ascii "metric"), .colon]) := rfl
  have hts : ∀ T, runSteps lexStep (.outside, T) (ascii ", \"timestamp\": ") =
      some (.outside, T ++ [Token.comma] ++ [Token.str (ascii "timestamp")] ++ [Token.colon]) := fun _ => rfl
  have hvalue : ∀ T, runSteps lexStep (.outside, T) (ascii " \"value\": ") =
      some (.outside, T ++ [Token.str (ascii "value")] ++ [Token.colon]) := fun _ => rfl
  have htags : ∀ T, runSteps lexStep (.outside, T) (ascii " \"tags\": \x7b\"host\": \"") =
      some (.str .plain [], T ++ [Token.str (ascii "tags")] ++ [Token.colon] ++ [Token.lbrace] ++
        [Token.str (ascii "host")] ++ [Token.colon]) := fun _ => rfl
  rw [hsplit, runSteps_append, hopen, Option.bind_some, runSteps_append, run_string h.body, Option.bind_some,
    runSteps_append, hts, Option.bind_some, runSteps_append, run_number (isNumber_decimal d.ts),
    Option.bind_some, runSteps_append, hvalue, Option.bind_some, runSteps_append, run_number h.value,
    Option.bind_some, htags]
  simp only [headTokens, List.cons_append, List.nil_append]

/-- The fixed part is ASCII. -/
theorem isAscii_docHead {d : DocArgs} (h : d.Plain) : IsAscii (docHead d.metric d.ts d.value) := by
  have hts : IsAscii (decimal d.ts) := isAscii_of_isNumber (isNumber_decimal d.ts)
  have hvalue : IsAscii d.value := isAscii_of_isNumber h.value
  have happend : ∀ {s t : CString}, IsAscii s → IsAscii t → IsAscii (s ++ t) := by
    intro s t hs ht
    exact List.forall_mem_append.2 ⟨hs, ht⟩
  unfold docHead
  refine happend (happend (happend (happend (happend (happend ?_ h.isAscii) ?_) hts) ?_) hvalue) ?_
  all_goals decide

theorem docHead_ne_nil (metric : CString) (ts : ℤ) (value : CString) : docHead metric ts value ≠ [] := by
  unfold docHead
  simp [ascii]

/-- The tokens behind the fixed part of a document that denotes an object of the right
    form. -/
theorem rest_of_denotes {d : DocArgs} (h : d.Plain) {rest metric ts value : CString}
    {tags : List (CString × Value)} {more : List Token}
    (htags : (docValue metric ts value tags).tokens = headTokens metric ts value ++ (more ++ [Token.rbrace]))
    (hlex : lex (docHead d.metric d.ts d.value ++ rest) = some (docValue metric ts value tags).tokens) :
    runSteps lexStep (.str .plain [], headTokens d.metric (decimal d.ts) d.value) rest =
      some (.outside, headTokens d.metric (decimal d.ts) d.value ++ (more ++ [Token.rbrace])) := by
  unfold lex at hlex
  obtain ⟨s, hrun, hfinish⟩ := Option.bind_eq_some_iff.1 hlex
  rw [htags, ← List.append_assoc] at hfinish
  rw [finish_eq_rbrace hfinish, runSteps_append, run_docHead h, Option.bind_some] at hrun
  obtain ⟨X, hX⟩ : headTokens d.metric (decimal d.ts) d.value <+:
      headTokens metric ts value ++ more ++ [Token.rbrace] := run_grows hrun
  rw [List.append_assoc] at hX
  have hhead := (List.append_inj hX rfl).1
  rw [hrun, hhead, List.append_assoc]

/-- The fixed part and the rest make up the tokens of the document. -/
theorem lex_of_rest {d : DocArgs} (h : d.Plain) {rest : CString} {tags : List (CString × Value)}
    {more : List Token}
    (htags : (docValue d.metric (decimal d.ts) d.value tags).tokens =
      headTokens d.metric (decimal d.ts) d.value ++ more)
    (hrest : runSteps lexStep (.str .plain [], headTokens d.metric (decimal d.ts) d.value) rest =
      some (.outside, headTokens d.metric (decimal d.ts) d.value ++ more)) :
    lex (docHead d.metric d.ts d.value ++ rest) =
      some (docValue d.metric (decimal d.ts) d.value tags).tokens := by
  unfold lex
  rw [runSteps_append, run_docHead h, Option.bind_some, hrest, htags]
  rfl

/-- No member follows the last string of the tags. -/
theorem no_member (b : CString) {name : CString} (X Y : List Token) :
    X ++ (Token.comma :: .str name :: .colon :: Y) ≠ [.str b, .rbrace, .rbrace] := by
  intro heq
  have hcomma : Token.comma ∈ X ++ (Token.comma :: .str name :: .colon :: Y) :=
    List.mem_append_right X List.mem_cons_self
  rw [heq] at hcomma
  simp at hcomma

/-! ## Interfaces -/

/-- What can be pasted into a document. -/
def Pasteable (s : CString) : Prop :=
  IsBody s ∧ IsUtf8 s

instance (s : CString) : Decidable (Pasteable s) :=
  inferInstanceAs (Decidable (_ ∧ _))

theorem isName_device : IsMemberName (ascii "device") where
  body := rfl
  ne_nil := List.cons_ne_nil _ _
  atom := List.all_eq_true.1 rfl
  not_token := rfl

def netNames : List CString := [ascii "host", ascii "device"]

theorem docValue_net_tokens (metric ts value host device : CString) :
    (docValue metric ts value (netNames.zip ([host, device].map Value.str))).tokens =
      headTokens metric ts value ++ ([Token.str host, .comma, .str (ascii "device"), .colon, .str device,
        .rbrace] ++ [Token.rbrace]) := by
  simp [docValue, netNames, Value.tokens, tokensOfMembers, headTokens]

/-- **A document of an interface** is well formed iff the host tag and the device can
    be pasted. -/
theorem netDoc_iff {d : DocArgs} (h : d.Plain) {host device : CString}
    (htags : d.tags = ascii "\"host\": \"" ++ host ++ ascii "\", \"device\": \"" ++ device ++ ascii "\"") :
    WellFormedDoc netNames d.doc ↔ Pasteable host ∧ Pasteable device := by
  have hdoc : d.doc = docHead d.metric d.ts d.value ++
      (host ++ toNext (ascii "device") ++ (device ++ [34, 125, 125])) := by
    unfold DocArgs.doc docHead toNext
    rw [htags]
    simp [ascii]
  have hutf8 : IsUtf8 d.doc ↔ IsUtf8 host ∧ IsUtf8 device := by
    have hparts : d.doc = [] ++ docHead d.metric d.ts d.value ++
        (host ++ toNext (ascii "device") ++ (device ++ [34, 125, 125] ++ [])) := by
      rw [hdoc]
      simp
    rw [hparts, isUtf8_split (isAscii_docHead h) (docHead_ne_nil _ _ _), isUtf8_split (by decide) (by decide),
      isUtf8_split (by decide) (by decide)]
    exact ⟨fun h => ⟨h.2.1, h.2.2.1⟩, fun h => ⟨rfl, h.1, h.2, rfl⟩⟩
  constructor
  · rintro ⟨metric, ts, value, tags, hlen, hu, hlex⟩
    obtain ⟨b, b', rfl⟩ := List.length_eq_two.1 hlen
    rw [hdoc] at hlex
    have hrest := rest_of_denotes h (docValue_net_tokens metric ts value b b') hlex
    obtain ⟨hhost, -, hrest⟩ := closed_of_name isName_device hrest (no_member b')
    have hdevice := closed_of_end hrest
    exact ⟨⟨hhost, (hutf8.1 hu).1⟩, hdevice.1, (hutf8.1 hu).2⟩
  · rintro ⟨⟨hhost, hhost8⟩, hdevice, hdevice8⟩
    refine ⟨d.metric, decimal d.ts, d.value, [host, device], rfl, hutf8.2 ⟨hhost8, hdevice8⟩, ?_⟩
    rw [hdoc]
    refine lex_of_rest h (docValue_net_tokens _ _ _ _ _) ?_
    rw [runSteps_append, run_toNext hhost isName_device, Option.bind_some, run_end hdevice]
    simp

/-! ## Processes -/

theorem isName_pid : IsMemberName (ascii "pid") where
  body := rfl
  ne_nil := List.cons_ne_nil _ _
  atom := List.all_eq_true.1 rfl
  not_token := rfl

theorem isName_command : IsMemberName (ascii "command") where
  body := rfl
  ne_nil := List.cons_ne_nil _ _
  atom := List.all_eq_true.1 rfl
  not_token := rfl

def procNames : List CString := [ascii "host", ascii "pid", ascii "command"]

theorem docValue_proc_tokens (metric ts value host pid command : CString) :
    (docValue metric ts value (procNames.zip ([host, pid, command].map Value.str))).tokens =
      headTokens metric ts value ++ ([Token.str host, .comma, .str (ascii "pid"), .colon, .str pid, .comma,
        .str (ascii "command"), .colon, .str command, .rbrace] ++ [Token.rbrace]) := by
  simp [docValue, procNames, Value.tokens, tokensOfMembers, headTokens]

theorem isBody_decimal (n : ℕ) : IsBody (decimal n) := by
  refine (isBody_iff_of_plain fun c hc => ?_).2 fun c hc => ?_
  all_goals have hdigit := isDigit_of_mem_decimal hc
  · constructor
    · rintro rfl
      cases hdigit
    · rintro rfl
      cases hdigit
  · have hlow : 48 ≤ c := of_decide_eq_true (Bool.and_eq_true_iff.1 hdigit).1
    exact UInt8.le_trans (by decide) hlow

theorem isAscii_decimal (n : ℕ) : IsAscii (decimal n) :=
  isAscii_of_isNumber (isNumber_decimal n)

/-- **A document of a process** is well formed iff the host tag and the command tag
    can be pasted. -/
theorem procDoc_iff {d : DocArgs} (h : d.Plain) {host command : CString} {pid : ℕ}
    (htags : d.tags = ascii "\"host\": \"" ++ host ++ ascii "\", \"pid\": \"" ++ decimal pid ++
      ascii "\", \"command\": \"" ++ command ++ ascii "\"") :
    WellFormedDoc procNames d.doc ↔ Pasteable host ∧ Pasteable command := by
  have hdoc : d.doc = docHead d.metric d.ts d.value ++ (host ++ toNext (ascii "pid") ++
      (decimal pid ++ toNext (ascii "command") ++ (command ++ [34, 125, 125]))) := by
    unfold DocArgs.doc docHead toNext
    rw [htags]
    simp [ascii]
  have hutf8 : IsUtf8 d.doc ↔ IsUtf8 host ∧ IsUtf8 command := by
    have hparts : d.doc = [] ++ docHead d.metric d.ts d.value ++ (host ++ toNext (ascii "pid") ++
        (decimal pid ++ toNext (ascii "command") ++ (command ++ [34, 125, 125] ++ []))) := by
      rw [hdoc]
      simp
    rw [hparts, isUtf8_split (isAscii_docHead h) (docHead_ne_nil _ _ _), isUtf8_split (by decide) (by decide),
      isUtf8_split (by decide) (by decide), isUtf8_split (by decide) (by decide)]
    exact ⟨fun h => ⟨h.2.1, h.2.2.2.1⟩, fun h => ⟨rfl, h.1, isUtf8_of_isAscii (isAscii_decimal pid), h.2, rfl⟩⟩
  constructor
  · rintro ⟨metric, ts, value, tags, hlen, hu, hlex⟩
    obtain ⟨b, b', b'', rfl⟩ := List.length_eq_three.1 hlen
    rw [hdoc] at hlex
    have hrest := rest_of_denotes h (docValue_proc_tokens metric ts value b b' b'') hlex
    have hnext : ∀ X Y : List Token, X ++ (Token.comma :: .str (ascii "pid") :: .colon :: Y) ≠
        .str b' :: .comma :: .str (ascii "command") :: .colon :: [.str b'', .rbrace, .rbrace] := by
      intro X Y heq
      rcases X with _ | ⟨x, _ | ⟨y, X⟩⟩
      · cases heq
      · have hname : ascii "pid" = ascii "command" := by
          simp only [List.cons_append, List.nil_append, List.cons.injEq, Token.str.injEq] at heq
          exact heq.2.2.1
        cases hname
      · have hcomma : Token.comma ∈ X ++ (Token.comma :: .str (ascii "pid") :: .colon :: Y) :=
          List.mem_append_right X List.mem_cons_self
        simp only [List.cons_append, List.cons.injEq] at heq
        rw [heq.2.2] at hcomma
        simp at hcomma
    obtain ⟨hhost, -, hrest⟩ := closed_of_name isName_pid hrest hnext
    obtain ⟨-, -, hrest⟩ := closed_of_name isName_command hrest (no_member b'')
    have hcommand := closed_of_end hrest
    exact ⟨⟨hhost, (hutf8.1 hu).1⟩, hcommand.1, (hutf8.1 hu).2⟩
  · rintro ⟨⟨hhost, hhost8⟩, hcommand, hcommand8⟩
    refine ⟨d.metric, decimal d.ts, d.value, [host, decimal pid, command], rfl, hutf8.2 ⟨hhost8, hcommand8⟩, ?_⟩
    rw [hdoc]
    refine lex_of_rest h (docValue_proc_tokens _ _ _ _ _ _) ?_
    rw [runSteps_append, run_toNext hhost isName_pid, Option.bind_some, runSteps_append,
      run_toNext (isBody_decimal pid) isName_command, Option.bind_some, run_end hcommand]
    simp

/-! ## Samples -/

def procMetrics : List String :=
  ["proc.cpu.user", "proc.cpu.kernel", "proc.cpu.wait", "proc.mem.virtual", "proc.mem.resident",
    "proc.disk.reads.mb", "proc.disk.writes.mb"]

theorem procMetrics_plain : ∀ m ∈ procMetrics, IsBody (ascii m) ∧ IsAscii (ascii m) := by
  decide

theorem metric_of_mem_procValues {opts : SampleOptions} {db : Doubles} {prevProcs : List ProcInfo} {iv : ℕ}
    {p : ProcInfo} {v : String × Printed} (h : v ∈ procValues opts db prevProcs iv p) : v.1 ∈ procMetrics := by
  have hite : ∀ (b : Bool) (l : List (String × Printed)), v ∈ (if b = true then l else []) → v ∈ l := by
    intro b l hv
    split_ifs at hv
    · exact hv
    · cases hv
  have hpair : ∀ (m m' : String) (x y : Printed), m ∈ procMetrics → m' ∈ procMetrics →
      v ∈ [(m, x), (m', y)] → v.1 ∈ procMetrics := by
    intro m m' x y hm hm' hv
    rcases List.mem_cons.1 hv with rfl | hv
    · exact hm
    · rw [List.mem_singleton.1 hv]
      exact hm'
  unfold procValues at h
  rcases List.mem_append.1 h with h | hdisk
  · rcases List.mem_append.1 h with h | hmem
    · rcases List.mem_append.1 h with hcpu | hwait
      · exact hpair _ _ _ _ (by decide) (by decide) (hite _ _ hcpu)
      · rw [List.mem_singleton.1 (hite _ _ hwait)]
        show "proc.cpu.wait" ∈ procMetrics
        decide
    · exact hpair _ _ _ _ (by decide) (by decide) (hite _ _ hmem)
  · exact hpair _ _ _ _ (by decide) (by decide) (hite _ _ hdisk)

theorem length_processString (input : CString) (size : ℕ) : (processString input size).length ≤ size - 1 := by
  unfold processString truncated
  simp only
  split_ifs <;> exact List.length_take_le _ _

/-- The feeder sends something on the process. -/
def Reported (opts : SampleOptions) (db : Doubles) (prevProcs : List ProcInfo) (iv : ℕ) (p : ProcInfo) : Prop :=
  procSkipped opts p.comm = false ∧ procValues opts db prevProcs iv p ≠ []

theorem procDocs_iff {opts : SampleOptions} {db : Doubles} {prevProcs : List ProcInfo} {ts : ℤ} {iv : ℕ}
    {p : ProcInfo} (hpid : p.pid < 2 ^ 31) (hcomm : p.comm.length ≤ pnamLen) :
    (∀ d ∈ procDocs opts db prevProcs ts iv p, WellFormedDoc procNames d.doc) ↔
      (Reported opts db prevProcs iv p → Pasteable opts.hostTag ∧ NameOk p.comm) := by
  unfold procDocs
  cases hskip : procSkipped opts p.comm with
  | true =>
    rw [if_pos rfl]
    exact ⟨fun _ h => (Bool.false_ne_true (h.1.symm.trans hskip)).elim, fun _ d hd => absurd hd List.not_mem_nil⟩
  | false =>
    rw [if_neg Bool.false_ne_true]
    have hlen : (processString (procCmd p.comm) 256).length < 256 := by
      have hle := length_processString (procCmd p.comm) 256
      omega
    have hdoc : ∀ v ∈ procValues opts db prevProcs iv p,
        WellFormedDoc procNames (DocArgs.doc ⟨ascii v.1, ts, v.2.text,
          procTags opts.hostTag p.pid (processString (procCmd p.comm) 256)⟩) ↔
            Pasteable opts.hostTag ∧ NameOk p.comm := by
      intro v hv
      obtain ⟨hbody, hascii⟩ := procMetrics_plain v.1 (metric_of_mem_procValues hv)
      have hplain : DocArgs.Plain ⟨ascii v.1, ts, v.2.text,
          procTags opts.hostTag p.pid (processString (procCmd p.comm) 256)⟩ :=
        ⟨hbody, hascii, isNumber_text v.2⟩
      rw [procDoc_iff hplain (procTags_eq hpid hlen)]
      exact and_congr_right fun _ => command_ok_iff hcomm hskip
    rw [List.forall_mem_map]
    constructor
    · rintro h ⟨-, hne⟩
      obtain ⟨v, hv⟩ := List.exists_mem_of_ne_nil _ hne
      exact (hdoc v hv).1 (h v hv)
    · intro h v hv
      exact (hdoc v hv).2 (h ⟨hskip, List.ne_nil_of_mem hv⟩)

/-- The devices on which the feeder sends something. -/
def reportedDevices (opts : SampleOptions) (iv : ℕ) (file : Option (List NetLine))
    (prev : Option (List IfCounters)) : List CString :=
  match file, prev with
  | some lines, some prevIfs =>
    if 0 < iv ∧ opts.gNET = true then
      [ascii "transport", ascii "network"] ++
        ((currentIfs lines).filter fun c => prevIfs.any fun p => p.name == c.name).map IfCounters.name
    else []
  | _, _ => []

theorem netMetrics_plain : ∀ m ∈ ["sys.net.in.mb", "sys.net.out.mb", "sys.net.usage"],
    IsBody (ascii m) ∧ IsAscii (ascii m) := by
  decide

theorem netDocs_iff {opts : SampleOptions} {device inS outS usage : CString} {ts : ℤ}
    (hdevice : device.length < 64) (hin : isNumber inS = true) (hout : isNumber outS = true)
    (husage : isNumber usage = true) :
    (∀ d ∈ netDocs opts.hostTag device ts inS outS usage, WellFormedDoc netNames d.doc) ↔
      Pasteable opts.hostTag ∧ Pasteable device := by
  have hdoc : ∀ m ∈ ["sys.net.in.mb", "sys.net.out.mb", "sys.net.usage"], ∀ value, isNumber value = true →
      (WellFormedDoc netNames (DocArgs.doc ⟨ascii m, ts, value, netTags opts.hostTag device⟩) ↔
        Pasteable opts.hostTag ∧ Pasteable device) := by
    intro m hm value hvalue
    obtain ⟨hbody, hascii⟩ := netMetrics_plain m hm
    exact netDoc_iff ⟨hbody, hascii, hvalue⟩ (netTags_eq hdevice)
  unfold netDocs
  rw [List.forall_mem_cons, List.forall_mem_cons, List.forall_mem_singleton, hdoc _ (by decide) _ hin,
    hdoc _ (by decide) _ hout, hdoc _ (by decide) _ husage, and_self, and_self]

theorem isNumber_usage {db : Doubles} {sys : SysNet} {cur : IfCounters} {inS outS : Printed} :
    isNumber (if 0 < readSpeed sys cur.name then
      (db.usage inS outS (readSpeed sys cur.name) (readDuplex sys cur.name)).text
        else decimal (readSpeed sys cur.name)) = true := by
  split_ifs
  · exact isNumber_text _
  · exact isNumber_decimal _

/-- The names of the interfaces fit into their buffer. -/
theorem length_name_of_mem {file : List NetLine} {c : IfCounters} (h : c ∈ currentIfs file) :
    c.name.length < 64 := by
  obtain ⟨l, -, hl⟩ := List.mem_filterMap.1 (List.mem_of_mem_take h)
  unfold NetLine.counters? at hl
  split_ifs at hl
  obtain ⟨v, -, rfl⟩ := Option.map_eq_some_iff.1 hl
  show (truncated 64 _).length < 64
  exact Nat.lt_of_le_of_lt (List.length_take_le _ _) (by decide)

theorem upperDocs_iff {opts : SampleOptions} {db : Doubles} {ts : ℤ} {iv : ℕ} {device : CString}
    (h : device.length < 64) :
    (∀ d ∈ upperDocs opts db ts iv device, WellFormedDoc netNames d.doc) ↔
      Pasteable opts.hostTag ∧ Pasteable device :=
  netDocs_iff h (isNumber_text _) (isNumber_text _) (isNumber_text _)

theorem ifDocs_iff {opts : SampleOptions} {db : Doubles} {sys : SysNet} {ts : ℤ} {iv : ℕ} {cur p : IfCounters}
    (h : cur.name.length < 64) :
    (∀ d ∈ ifDocs opts db sys ts iv cur p, WellFormedDoc netNames d.doc) ↔
      Pasteable opts.hostTag ∧ Pasteable cur.name :=
  netDocs_iff h (isNumber_text _) (isNumber_text _) isNumber_usage

/-- The documents of `sample_net`. -/
theorem sampleNet_iff (opts : SampleOptions) (db : Doubles) (sys : SysNet) (ts : ℤ) (iv : ℕ)
    (file : Option (List NetLine)) (prev : Option (List IfCounters)) :
    (∀ d ∈ (sampleNet opts db sys ts iv file prev).1, WellFormedDoc netNames d.doc) ↔
      ∀ device ∈ reportedDevices opts iv file prev, Pasteable opts.hostTag ∧ Pasteable device := by
  cases file with
  | none => exact ⟨fun _ _ h => absurd h List.not_mem_nil, fun _ _ h => absurd h List.not_mem_nil⟩
  | some lines =>
    cases prev with
    | none => exact ⟨fun _ _ h => absurd h List.not_mem_nil, fun _ _ h => absurd h List.not_mem_nil⟩
    | some prevIfs =>
      unfold sampleNet reportedDevices
      simp only
      split_ifs with hon
      · rw [List.forall_mem_append, List.forall_mem_append, List.forall_mem_flatMap, List.forall_mem_flatMap,
          List.forall_mem_map]
        refine and_congr ?_ ?_
        · have hshort : ∀ device ∈ [ascii "transport", ascii "network"], device.length < 64 := by decide
          exact forall₂_congr fun device hdevice => upperDocs_iff (hshort device hdevice)
        · constructor
          · intro h c hc
            obtain ⟨hcur, hany⟩ := List.mem_filter.1 hc
            obtain ⟨p, hp⟩ := Option.isSome_iff_exists.1 (List.find?_isSome.2 (List.any_eq_true.1 hany))
            have hdocs := h c hcur
            rw [hp] at hdocs
            exact (ifDocs_iff (length_name_of_mem hcur)).1 hdocs
          · intro h c hcur
            cases hfound : prevIfs.find? fun p => p.name == c.name with
            | none => exact fun d hd => absurd hd List.not_mem_nil
            | some p =>
              have hsame := List.find?_some hfound
              have hany : (prevIfs.any fun p => p.name == c.name) = true :=
                List.any_eq_true.2 ⟨p, List.mem_of_find?_eq_some hfound, hsame⟩
              exact (ifDocs_iff (length_name_of_mem hcur)).2 (h c (List.mem_filter.2 ⟨hcur, hany⟩))
      · exact ⟨fun _ _ h => absurd h List.not_mem_nil, fun _ _ h => absurd h List.not_mem_nil⟩

/-- The documents of `sample_procs`. -/
theorem sampleProcs_iff (opts : SampleOptions) (db : Doubles) (ts : ℤ) (iv : ℕ) (listing : List ProcEntry)
    (prev : ProcState) :
    (∀ d ∈ (sampleProcs opts db ts iv (some listing) prev).1, WellFormedDoc procNames d.doc) ↔
      ∀ p ∈ (nextState opts prev listing).prevProcs, 0 < iv → Reported opts db prev.prevProcs iv p →
        Pasteable opts.hostTag ∧ NameOk p.comm := by
  unfold sampleProcs
  simp only
  split_ifs with hiv
  · rw [List.forall_mem_flatMap]
    refine forall₂_congr fun p hp => ?_
    obtain ⟨e, -, hpid, hcomm⟩ := mem_gather (List.mem_mergeSort.1 hp)
    rw [procDocs_iff (hpid ▸ e.pid_lt) hcomm]
    exact ⟨fun h _ => h, fun h => h hiv⟩
  · exact ⟨fun _ _ _ h => absurd h hiv, fun _ _ h => absurd h List.not_mem_nil⟩

/-- **The documents of a sample are well formed** iff the host tag and the names they
    are about can be pasted into them. -/
theorem documents_well_formed_iff (opts : SampleOptions) (db : Doubles) (sys : SysNet) (ts : ℤ) (iv : ℕ)
    (listing : List ProcEntry) (prev : ProcState) (file : Option (List NetLine))
    (prevIfs : Option (List IfCounters)) :
    ((∀ d ∈ (sampleProcs opts db ts iv (some listing) prev).1, WellFormedDoc procNames d.doc) ∧
        ∀ d ∈ (sampleNet opts db sys ts iv file prevIfs).1, WellFormedDoc netNames d.doc) ↔
      (∀ p ∈ (nextState opts prev listing).prevProcs, 0 < iv → Reported opts db prev.prevProcs iv p →
          Pasteable opts.hostTag ∧ NameOk p.comm) ∧
        ∀ device ∈ reportedDevices opts iv file prevIfs, Pasteable opts.hostTag ∧ Pasteable device :=
  and_congr (sampleProcs_iff opts db ts iv listing prev) (sampleNet_iff opts db sys ts iv file prevIfs)

/-! ## An interface with a quote in its name -/

theorem zero_hundredths_lt : 0 < 10 ^ 40 := by decide

def zeroPrinted : Printed := ⟨0, zero_hundredths_lt⟩

/-- Nothing has been sent or received. -/
def idleDoubles : Doubles where
  cpu _ _ := zeroPrinted
  wait _ _ := zeroPrinted
  mb _ := zeroPrinted
  disk _ _ := zeroPrinted
  net _ _ := zeroPrinted
  upper _ := zeroPrinted
  upperUsage _ := zeroPrinted
  usage _ _ _ _ := zeroPrinted

theorem node1_length : (ascii "node1").length < 512 := by decide

def node1Options : SampleOptions := ⟨true, true, true, true, true, 4096, ascii "node1", node1_length⟩

/-- The kernel accepts the name `a"b`, and its documents are no JSON. -/
theorem quoted_interface_malformed :
    ∃ d ∈ (sampleNet node1Options idleDoubles ⟨fun _ => none, fun _ => none⟩ 1700000000 5
        (some [⟨ascii "   a\"b: 0 0 0 0 0 0 0 0 0", some (0, 0)⟩]) (some [⟨ascii "a\"b", 0, 0⟩])).1,
      ¬ WellFormedDoc netNames d.doc := by
  refine ⟨⟨ascii "sys.net.in.mb", 1700000000, zeroPrinted.text, netTags (ascii "node1") (ascii "a\"b")⟩,
    List.mem_iff_getElem?.2 ⟨6, rfl⟩, ?_⟩
  rintro ⟨metric, ts, value, tags, -, -, hlex⟩
  have hnone : lex (DocArgs.doc ⟨ascii "sys.net.in.mb", 1700000000, zeroPrinted.text,
      netTags (ascii "node1") (ascii "a\"b")⟩) = none := by decide +kernel
  rw [hnone] at hlex
  cases hlex

end ServerlessYarn
