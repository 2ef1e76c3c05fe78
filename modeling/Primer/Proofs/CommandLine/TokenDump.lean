import Primer.CommandLine.Report
import Primer.Proofs.CommandLine.OneLine
import Primer.Proofs.Grammar.EarliestFault
import Primer.Proofs.Programs

/-! # Printing the tokens first

The tokens of a program can be printed before anything is done with it, and for that they all have
to be read. A program without faults is read to its end in any case, so this never turns success
into failure. It can change which fault is reported, if the text is refused at a token and cannot be
read behind it.
-/
namespace Primer

/-- The text is refused at a token, in front of the place where it cannot be read. -/
structure RefusedEarly (source : String) (f : Fault) (g : LexicalFault) : Prop where
  parse : Program.parse source = .error f
  lexical : (TokenStream.ofString source).toTokenList = .error g
  token : ∃ e, ∃ u ∈ (TokenStream.ofString source).tokens,
    f = .source (.unexpected e (some u.token) u.line)

theorem Verdict.of_lexical {Phrase : Grammar.Tokens → Tree → Prop} {s : TokenStream}
    {r : Except SourceFault Tree} {g : LexicalFault} (h : Verdict Phrase s r)
    (hs : s.toTokenList = .error g) :
    r = .error (.lexical g) ∨
      ∃ e, ∃ u ∈ s.tokens, r = .error (.unexpected e (some u.token) u.line) := by
  have hending : s.ending = .fault g := by
    unfold TokenStream.toTokenList at hs
    split at hs
    · cases hs
    · cases hs
      assumption
  cases h with
  | accepted hend =>
    rw [hending] at hend
    cases hend
  | lexical hend =>
    rw [hending] at hend
    cases hend
    exact .inl rfl
  | unexpected before after seen hseen =>
    have hmem : seen ∈ s.tokens.map Located.sighting := by
      have hsightings : s.sightings = s.tokens.map Located.sighting := by
        rw [TokenStream.sightings, hending]
        exact List.append_nil _
      rw [← hsightings, hseen]
      exact List.mem_append_right _ List.mem_cons_self
    obtain ⟨u, hu, rfl⟩ := List.mem_map.mp hmem
    exact .inr ⟨_, u, hu, rfl⟩

theorem Program.parse_of_lexical {source : String} {g : LexicalFault}
    (h : (TokenStream.ofString source).toTokenList = .error g) :
    Program.parse source = .error (.source (.lexical g)) ∨ ∃ f, RefusedEarly source f g := by
  have hverdict := Grammar.verdict_wholeText Grammar.recognises_program (TokenStream.ofString source)
  have hparse : Program.parse source =
      (Grammar.wholeText Grammar.readProgram (TokenStream.ofString source)).mapError .source := by
    rw [Program.parse, Grammar.program_eq_wholeText]
  rcases hverdict.of_lexical h with hr | ⟨e, u, hu, hr⟩
  · rw [hr] at hparse
    exact .inl hparse
  · rw [hr] at hparse
    exact .inr ⟨_, hparse, h, e, u, hu, rfl⟩

namespace CommandLine

/-- A line of the list: a line number at the end of four columns, and what stands on that line. -/
def tokenRow (line : Nat) (text : String) : List Char :=
  List.replicate (4 - line.repr.length) ' ' ++ line.repr.toList ++ [' ', ' '] ++ text.toList

theorem oneLine_padLeft (width n : Nat) : OneLine (padLeft width n) := by
  refine .append (.ofList ?_) (.nat n)
  intro h
  exact absurd (List.eq_of_mem_replicate h) (by decide)

theorem tokenRow_eq (line : Nat) (text : String) :
    (padLeft 4 line ++ "  " ++ text).toList = tokenRow line text := by
  simp [padLeft, tokenRow]

theorem oneLine_of_mem_rows {source : String} {l : TokenList} {row : Nat × String}
    (h : (TokenStream.ofString source).toTokenList = .ok l) (hrow : row ∈ l.rows) :
    OneLine row.2 := by
  rcases List.mem_append.mp hrow with hrow | hrow
  · obtain ⟨u, hu, rfl⟩ := List.mem_map.mp hrow
    rw [TokenStream.tokens_of_toTokenList h] at hu
    exact TokenStream.oneLine_of_mem hu
  · cases List.mem_singleton.mp hrow
    have hend : OneLine (foundText none) := by decide
    exact hend

/-- Each token and the end of the text have one line of the list. -/
theorem splitOn_tokenDump {source : String} {l : TokenList}
    (h : (TokenStream.ofString source).toTokenList = .ok l) :
    (tokenDump l).toList.splitOn '\n' =
      l.tokens.map (fun u => tokenRow u.line u.token.text) ++
        [tokenRow l.lastLine "end of input", []] := by
  let written := l.rows.map fun row => padLeft 4 row.1 ++ "  " ++ row.2
  have hwritten : ∀ text ∈ written, OneLine text := by
    intro text hmem
    obtain ⟨row, hrow, rfl⟩ := List.mem_map.mp hmem
    have hblanks : OneLine "  " := by decide
    exact ((oneLine_padLeft 4 row.1).append hblanks).append (oneLine_of_mem_rows h hrow)
  have hdump : tokenDump l = String.join (written.map (· ++ "\n")) := by
    rw [List.map_map]
    rfl
  have hrows : written.map String.toList =
      l.tokens.map (fun u => tokenRow u.line u.token.text) ++
        [tokenRow l.lastLine "end of input"] := by
    simp only [written, TokenList.rows, List.map_map, List.map_append, Function.comp_def,
      tokenRow_eq]
    rfl
  rw [hdump, splitOn_join hwritten, hrows, List.append_assoc]
  rfl

namespace Options
variable {o : Options} {program : String}

theorem modeOutput_of_parse {f : Fault} (h : Program.parse program = .error f) :
    o.modeOutput program = .error f := by
  have hcheck : Program.check program = .error f := by
    rw [Program.check_eq, h]
    rfl
  have hinterpret : Program.interpret program = .error f := by
    rw [Program.interpret_eq, h]
    rfl
  have hrun : Program.run program = .error f := by
    rw [Program.run_eq, hcheck]
    rfl
  unfold modeOutput
  cases o.mode with
  | check =>
    rw [hcheck]
    rfl
  | interpret =>
    rw [hinterpret]
    rfl
  | run =>
    rw [hrun]
    rfl

theorem modeOutput_of_lexical {g : LexicalFault}
    (h : (TokenStream.ofString program).toTokenList = .error g) :
    o.modeOutput program = .error (.source (.lexical g)) ∨
      ∃ f, RefusedEarly program f g ∧ o.modeOutput program = .error f := by
  rcases Program.parse_of_lexical h with hparse | ⟨f, hf⟩
  · exact .inl (modeOutput_of_parse hparse)
  · exact .inr ⟨f, hf, modeOutput_of_parse hf.parse⟩

theorem execute_of_ok {text : String} (h : o.modeOutput program = .ok text) :
    ∃ l, (TokenStream.ofString program).toTokenList = .ok l ∧
      { o with showTokens := false }.execute program = (text, none) ∧
      { o with showTokens := true }.execute program = (tokenDump l ++ text, none) := by
  cases htokens : (TokenStream.ofString program).toTokenList with
  | error g =>
    rcases modeOutput_of_lexical (o := o) htokens with hout | ⟨f, -, hout⟩
    · rw [hout] at h
      cases h
    · rw [hout] at h
      cases h
  | ok l =>
    have hmode (flag : Bool) : { o with showTokens := flag }.modeOutput program = .ok text := h
    refine ⟨l, rfl, ?_, ?_⟩
    · simp [execute, hmode]
    · simp [execute, hmode, htokens]

theorem execute_of_error {f : Fault} (h : o.modeOutput program = .error f) :
    { o with showTokens := false }.execute program = ("", some f) ∧
    (∀ l, (TokenStream.ofString program).toTokenList = .ok l →
      { o with showTokens := true }.execute program = (tokenDump l, some f)) ∧
    ∀ g, (TokenStream.ofString program).toTokenList = .error g →
      { o with showTokens := true }.execute program = ("", some (.source (.lexical g))) := by
  have hmode (flag : Bool) : { o with showTokens := flag }.modeOutput program = .error f := h
  refine ⟨?_, ?_, ?_⟩
  · simp [execute, hmode]
  · intro l hl
    simp [execute, hmode, hl]
  · intro g hg
    simp [execute, hg]

theorem execute_succeeds_iff (o : Options) (program : String) :
    ({ o with showTokens := true }.execute program).2 = none ↔
      ({ o with showTokens := false }.execute program).2 = none := by
  cases hmode : o.modeOutput program with
  | ok text =>
    obtain ⟨l, -, hplain, hshown⟩ := execute_of_ok hmode
    rw [hplain, hshown]
  | error f =>
    obtain ⟨hplain, hshown, hshown'⟩ := execute_of_error hmode
    rw [hplain]
    cases htokens : (TokenStream.ofString program).toTokenList with
    | ok l => rw [hshown l htokens]
    | error g => simp [hshown' g htokens]

theorem status_report (o : Options) (readFile : String → Except FileFault String) :
    ({ o with showTokens := true }.report readFile).status =
      ({ o with showTokens := false }.report readFile).status := by
  unfold report
  cases if o.fromFile then readFile o.contents else .ok o.contents with
  | error f => rfl
  | ok program =>
    have hiff := execute_succeeds_iff o program
    rcases hshown : { o with showTokens := true }.execute program with ⟨output, _ | f⟩
    · rcases hplain : { o with showTokens := false }.execute program with ⟨output', _ | f'⟩
      · simp only [hshown, hplain]
      · simp [hshown, hplain] at hiff
    · rcases hplain : { o with showTokens := false }.execute program with ⟨output', _ | f'⟩
      · simp [hshown, hplain] at hiff
      · simp only [hshown, hplain]

end Options

/-- Asking for the tokens never changes whether a program succeeds, in any mode. They are printed in
front of what is printed anyway, one line for each of them and for the end of the text, unless they
cannot all be read. The same fault is reported, except that the one behind which the text was refused
early comes to light. -/
theorem execute_showTokens (o : Options) (program : String) :
    let tokens := (TokenStream.ofString program).toTokenList
    let plain := { o with showTokens := false }.execute program
    let shown := { o with showTokens := true }.execute program
    (shown.2 = none ↔ plain.2 = none) ∧
    (plain.2 = none → ∃ l, tokens = .ok l ∧ shown.1 = tokenDump l ++ plain.1) ∧
    (∀ f, plain.2 = some f →
      plain.1 = "" ∧ (∀ l, tokens = .ok l → shown.1 = tokenDump l) ∧
      (∀ g, tokens = .error g → shown.1 = "") ∧
      ((∀ g, ¬ RefusedEarly program f g) → shown.2 = some f) ∧
      ∀ g, RefusedEarly program f g → shown.2 = some (.source (.lexical g))) ∧
    (∀ l, tokens = .ok l → (tokenDump l).toList.splitOn '\n' =
      l.tokens.map (fun u => tokenRow u.line u.token.text) ++
        [tokenRow l.lastLine "end of input", []]) ∧
    ∀ readFile, ({ o with showTokens := true }.report readFile).status =
      ({ o with showTokens := false }.report readFile).status := by
  intro tokens plain shown
  refine ⟨o.execute_succeeds_iff program, ?_, ?_, fun l => splitOn_tokenDump, o.status_report⟩
  · intro hplain
    cases hmode : o.modeOutput program with
    | ok text =>
      obtain ⟨l, hl, hout, hout'⟩ := Options.execute_of_ok hmode
      refine ⟨l, hl, ?_⟩
      simp only [plain, shown, hout, hout']
    | error f =>
      obtain ⟨hout, -⟩ := Options.execute_of_error hmode
      simp [plain, hout] at hplain
  · intro f hplain
    cases hmode : o.modeOutput program with
    | ok text =>
      obtain ⟨l, -, hout, -⟩ := Options.execute_of_ok hmode
      simp [plain, hout] at hplain
    | error f' =>
      obtain ⟨hout, hshown, hshown'⟩ := Options.execute_of_error hmode
      obtain rfl : f' = f := by simpa [plain, hout] using hplain
      refine ⟨congrArg Prod.fst hout, fun l hl => congrArg Prod.fst (hshown l hl),
        fun g hg => congrArg Prod.fst (hshown' g hg), ?_,
        fun g hg => congrArg Prod.snd (hshown' g hg.lexical)⟩
      intro hnot
      cases htokens : (TokenStream.ofString program).toTokenList with
      | ok l => exact congrArg Prod.snd (hshown l htokens)
      | error g =>
        have hlexical : f' = .source (.lexical g) := by
          rcases Options.modeOutput_of_lexical (o := o) htokens with hout | ⟨f, hearly, hout⟩
          · rw [hmode] at hout
            cases hout
            rfl
          · rw [hmode] at hout
            cases hout
            exact absurd hearly (hnot g)
        rw [hlexical]
        exact congrArg Prod.snd (hshown' g htokens)

theorem program_refused_early : RefusedEarly "main )$"
    (.source (.unexpected .endOfInput (some (.mark .closeParen)) 1)) (.strayCharacter '$' 1 7) := by
  have hstream : TokenStream.ofString "main )$" =
      ⟨[⟨.keyword .main, 1⟩, ⟨.mark .closeParen, 1⟩], .fault (.strayCharacter '$' 1 7)⟩ :=
    TokenStream.ofCursor_eq (by rfl)
  refine ⟨?_, ?_, .endOfInput, ⟨.mark .closeParen, 1⟩, ?_, rfl⟩
  · rw [Program.parse, hstream, TokenStream.program]
    simp only [Grammar.statement]
    rfl
  · rw [hstream]
    rfl
  · rw [hstream]
    exact List.mem_cons_of_mem _ List.mem_cons_self

/-- The tokens of the first program are printed in front of its variable. The second one is refused
at the bracket, and the stray character behind it is only seen if all tokens are asked for. -/
theorem execute_showTokens_printed_or_refused :
    let o : Options := ⟨.interpret, false, true, true, ""⟩
    o.execute "main\nx = 2.5\n" =
      ("   1  'main'\n   2  identifier 'x'\n   2  '='\n   2  float literal 2.5\n" ++
        "   3  end of input\n" ++ "x = 2.5\n", none) ∧
    ({ o with showTokens := false }.execute "main )$").2 =
      some (.source (.unexpected .endOfInput (some (.mark .closeParen)) 1)) ∧
    (o.execute "main )$").2 = some (.source (.lexical (.strayCharacter '$' 1 7))) := by
  intro o
  have htokens : (TokenStream.ofString "main\nx = 2.5\n").toTokenList =
      .ok ⟨[⟨.keyword .main, 1⟩, ⟨.name "x", 2⟩, ⟨.mark .equals, 2⟩, ⟨.float 2.5, 2⟩], 3⟩ :=
    TokenStream.toTokenList_ofString (by rfl)
  have hparse : Program.parse "main\nx = 2.5\n" =
      .ok (.assignment "x" (.literal (.float 2.5) 2) 2) :=
    Program.parse_eq_ok_iff.mpr ⟨_, htokens, .mk (.assignment (.one (.one .float)))⟩
  have hmode : o.modeOutput "main\nx = 2.5\n" = .ok "x = 2.5\n" := by
    have houtcome : (Tree.assignment "x" (.literal (.float 2.5) 2) 2).outcome =
      .ok ⟨none, NameMap.empty.insert "x" (.float 2.5)⟩ := by rfl
    have htext : outcomeText true ⟨none, NameMap.empty.insert "x" (.float 2.5)⟩ = "x = 2.5\n" := by
      decide +kernel
    rw [Options.modeOutput, Program.interpret_of_parse hparse, houtcome]
    exact congrArg Except.ok htext
  have hdump : tokenDump ⟨[⟨.keyword .main, 1⟩, ⟨.name "x", 2⟩, ⟨.mark .equals, 2⟩,
      ⟨.float 2.5, 2⟩], 3⟩ =
      "   1  'main'\n   2  identifier 'x'\n   2  '='\n   2  float literal 2.5\n" ++
        "   3  end of input\n" := by
    decide +kernel
  refine ⟨?_, ?_⟩
  · obtain ⟨-, -, hplain, -⟩ := Options.execute_of_ok hmode
    obtain ⟨hsucceeds, hprinted, -⟩ := execute_showTokens o "main\nx = 2.5\n"
    obtain ⟨l, hl, hshown⟩ := hprinted (congrArg Prod.snd hplain)
    cases htokens.symm.trans hl
    rw [hplain, hdump] at hshown
    exact Prod.ext hshown (hsucceeds.mpr (congrArg Prod.snd hplain))
  · have hfault := congrArg Prod.snd (Options.execute_of_error
      (Options.modeOutput_of_parse (o := o) program_refused_early.parse)).1
    obtain ⟨-, -, hfailed, -⟩ := execute_showTokens o "main )$"
    obtain ⟨-, -, -, -, hshown⟩ := hfailed _ hfault
    exact ⟨hfault, hshown _ program_refused_early⟩

end CommandLine

end Primer
