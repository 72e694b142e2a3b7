import StackCircuit.Proofs.Assembly.Patches

/-!
# Declarations of functions

* `parameters_eq_ok`: parameter types between parentheses; `results_of_spells`, `spells_of_results`,
  `locals_of_spells`, `spells_of_locals`: counts that may be left out.
* **`shows_of_declaration`**, **`declaration_of_spells`**: the parser of functions reads exactly the
  declarations whose names are new and which are well-formed in a file with the functions they call.
-/

namespace StackCircuit.Assembly

open Bytecode (Function Instruction Opcode)

variable {t : Token} {ts mid rest : List Token} {name : String} {n : ℕ} {others : Array Draft}

/-! ## Single tokens -/

theorem expect_symbol (kind : TokenKind) (h : kind ≠ .identifier ∧ kind ≠ .number) :
    (∃ t, expect kind ts = .ok t rest) ↔ Spells [.symbol kind] ts rest := by
  simp only [expect_eq_ok, spells_cons, spells_nil, terminal_eq_symbol]
  constructor
  · rintro ⟨t, rfl, ht⟩
    exact ⟨t, rest, rfl, ⟨ht, h⟩, rfl⟩
  · rintro ⟨t, _, rfl, ⟨ht, -⟩, rfl⟩
    exact ⟨t, rfl, ht⟩

theorem count_eq_ok (h : Numbered ts) :
    count ts = .ok n rest ↔
      ∃ lexeme, Spells [.number lexeme] ts rest ∧ n = denoted lexeme ∧ n < 2 ^ 16 := by
  simp only [count, literal_eq_ok_of_numbered h, spells_cons, spells_nil, terminal_eq_number]
  constructor
  · rintro ⟨t, rfl, hkind, hn, hlt⟩
    exact ⟨t.lexeme, ⟨t, rest, rfl, ⟨hkind, rfl⟩, rfl⟩, hn, hlt⟩
  · rintro ⟨_, ⟨t, _, rfl, ⟨hkind, rfl⟩, rfl⟩, hn, hlt⟩
    exact ⟨t, rfl, hkind, hn, hlt⟩

theorem freshName_eq_ok :
    freshName others ts = .ok name rest ↔ Spells [.name name] ts rest ∧ name ∉ names others := by
  have hany (s : String) : others.any (·.name == s) = true ↔ s ∈ names others := by
    rw [← Array.any_toList, List.any_eq_true, names, List.mem_map]
    simp
  simp only [freshName, Parser.bind_eq_ok, expect_eq_ok, spells_cons, spells_nil,
    terminal_eq_name, hany]
  constructor
  · rintro ⟨t, mid, ⟨rfl, hkind⟩, h⟩
    split at h
    case isTrue => cases h
    case isFalse hnew =>
      cases h
      exact ⟨⟨t, rest, rfl, ⟨hkind, rfl⟩, rfl⟩, hnew⟩
  · rintro ⟨⟨t, _, rfl, ⟨hkind, rfl⟩, rfl⟩, hnew⟩
    exact ⟨t, _, ⟨rfl, hkind⟩, by rw [if_neg hnew]; rfl⟩

/-! ## Parameters -/

theorem typeOfName?_eq_some {type : ValueType} :
    ValueType.ofName? name = some type ↔ type ∈ knownTypes ∧ type.name = name := by
  constructor
  · intro h
    unfold ValueType.ofName? at h
    split at h <;> cases h <;> decide
  · rintro ⟨h, rfl⟩
    simp only [knownTypes, List.mem_cons, List.not_mem_nil, or_false] at h
    rcases h with rfl | rfl | rfl | rfl <;> rfl

/-- The terminals of types behind others. -/
def behind (types : List ValueType) : List Terminal :=
  types.flatMap fun type => [.symbol .comma, .name type.name]

theorem intersperse_eq_behind (type : ValueType) (types : List ValueType) :
    ((type :: types).map fun type => Terminal.name type.name).intersperse (.symbol .comma) =
      .name type.name :: behind types := by
  induction types generalizing type with
  | nil => rfl
  | cons type' types ih =>
    rw [List.map_cons, List.map_cons, List.intersperse_cons_cons]
    exact congrArg (fun tail => _ :: _ :: tail) (ih type')

theorem parameter_spells {type : ValueType} :
    parameter ts = .ok type rest ↔ Spells [.name type.name] ts rest ∧ type ∈ knownTypes := by
  simp only [parameter_eq_ok, typeOfName?_eq_some, spells_cons, spells_nil, terminal_eq_name]
  constructor
  · rintro ⟨t, rfl, hkind, hknown, hname⟩
    exact ⟨⟨t, rest, rfl, ⟨hkind, hname.symm⟩, rfl⟩, hknown⟩
  · rintro ⟨⟨t, _, rfl, ⟨hkind, hname⟩, rfl⟩, hknown⟩
    exact ⟨t, rfl, hkind, hknown, hname.symm⟩

theorem parameters_close {types : List ValueType} (ht : t.kind = .parenClose) :
    parameters types (t :: rest) = .ok types.reverse rest := by
  cases rest <;> simp [parameters, ht]

theorem parameters_comma {types : List ValueType} {type : ValueType} {t' : Token} (h : types ≠ [])
    (ht : t.kind = .comma) (hok : parameter (t' :: rest) = .ok type rest) :
    parameters types (t :: t' :: rest) = parameters (type :: types) rest := by
  simp [parameters, ht, h, hok]

theorem parameters_first {type : ValueType} (hok : parameter (t :: rest) = .ok type rest) :
    parameters [] (t :: rest) = parameters [type] rest := by
  obtain ⟨_, heq, ht, -⟩ := parameter_eq_ok.mp hok
  obtain ⟨rfl, -⟩ := List.cons.inj heq
  cases rest <;> simp [parameters, ht, hok]

theorem parameters_behind_eq_ok {types types' : List ValueType} (h : types ≠ []) :
    parameters types ts = .ok types' rest ↔
      ∃ more, (∀ type ∈ more, type ∈ knownTypes) ∧ types' = types.reverse ++ more ∧
        Spells (behind more ++ [.symbol .parenClose]) ts rest := by
  constructor
  · intro hok
    fun_induction parameters types ts with
    | case1 | case3 | case5 | case6 | case7 => cases hok
    | case2 types t ts hclose =>
      cases hok
      refine ⟨[], nofun, (List.append_nil _).symm, ?_⟩
      simpa [behind, spells_cons, terminal_eq_symbol] using hclose
    | case4 types t ts _ hempty => exact absurd (List.isEmpty_iff.mp hempty) h
    | case8 types t _ _ hcomma t' ts type tokens htype ih =>
      obtain ⟨more, hknown, rfl, hspells⟩ := ih (List.cons_ne_nil _ _) hok
      obtain ⟨hspells', htype⟩ := parameter_spells.mp htype
      obtain ⟨_, _, heq, ht', hts⟩ := spells_cons.mp hspells'
      obtain ⟨rfl, rfl⟩ := List.cons.inj heq
      refine ⟨type :: more, List.forall_mem_cons.mpr ⟨htype, hknown⟩, by simp, ?_⟩
      exact spells_cons.mpr ⟨t, _, rfl, terminal_eq_symbol.mpr ⟨not_not.mp hcomma, nofun, nofun⟩,
        spells_cons.mpr ⟨t', _, rfl, ht', hspells⟩⟩
  · rintro ⟨more, hknown, rfl, hspells⟩
    induction more generalizing types ts with
    | nil =>
      obtain ⟨t, mid, rfl, ht, hmid⟩ := spells_cons.mp hspells
      obtain rfl := spells_nil.mp hmid
      rw [parameters_close (terminal_eq_symbol.mp ht).1, List.append_nil]
    | cons type more ih =>
      obtain ⟨htype, hknown⟩ := List.forall_mem_cons.mp hknown
      obtain ⟨t, mid, rfl, ht, hmid⟩ := spells_cons.mp hspells
      obtain ⟨t', mid, rfl, ht', hmid⟩ := spells_cons.mp hmid
      have hparameter : parameter (t' :: mid) = .ok type mid :=
        parameter_spells.mpr ⟨spells_cons.mpr ⟨t', mid, rfl, ht', spells_nil.mpr rfl⟩, htype⟩
      rw [parameters_comma h (terminal_eq_symbol.mp ht).1 hparameter,
        ih (List.cons_ne_nil _ _) hknown hmid]
      simp

/-- **Parameters are known types with commas between them.** -/
theorem parameters_eq_ok {types : List ValueType} :
    parameters [] ts = .ok types rest ↔
      (∀ type ∈ types, type ∈ knownTypes) ∧
        Spells ((types.map fun type => Terminal.name type.name).intersperse (.symbol .comma) ++
          [.symbol .parenClose]) ts rest := by
  have hsingleton {type : ValueType} : [type] ≠ [] := List.cons_ne_nil _ _
  constructor
  · intro hok
    obtain _ | ⟨t, ts⟩ := ts
    · cases hok
    by_cases hclose : t.kind = .parenClose
    · rw [parameters_close hclose] at hok
      cases hok
      refine ⟨nofun, ?_⟩
      simpa [spells_cons, terminal_eq_symbol] using hclose
    · cases htype : parameter (t :: ts) with
      | error => cases ts <;> simp [parameters, hclose, htype] at hok
      | ok type tokens =>
        obtain ⟨hfirst, hknown⟩ := parameter_spells.mp htype
        obtain ⟨_, _, heq, ht, hts⟩ := spells_cons.mp hfirst
        obtain ⟨rfl, rfl⟩ := List.cons.inj heq
        obtain rfl := spells_nil.mp hts
        rw [parameters_first htype, parameters_behind_eq_ok hsingleton] at hok
        obtain ⟨more, hmore, rfl, hspells⟩ := hok
        refine ⟨List.forall_mem_cons.mpr ⟨hknown, hmore⟩, ?_⟩
        rw [List.reverse_singleton, List.singleton_append, intersperse_eq_behind]
        exact spells_cons.mpr ⟨t, _, rfl, ht, hspells⟩
  · rintro ⟨hknown, hspells⟩
    obtain _ | ⟨type, more⟩ := types
    · obtain ⟨t, mid, rfl, ht, hmid⟩ := spells_cons.mp hspells
      obtain rfl := spells_nil.mp hmid
      exact parameters_close (terminal_eq_symbol.mp ht).1
    · obtain ⟨htype, hmore⟩ := List.forall_mem_cons.mp hknown
      rw [intersperse_eq_behind] at hspells
      obtain ⟨t, mid, rfl, ht, hmid⟩ := spells_cons.mp hspells
      have hparameter : parameter (t :: mid) = .ok type mid :=
        parameter_spells.mpr ⟨spells_cons.mpr ⟨t, mid, rfl, ht, spells_nil.mpr rfl⟩, htype⟩
      rw [parameters_first hparameter, parameters_behind_eq_ok hsingleton]
      exact ⟨more, hmore, rfl, hmid⟩

/-! ## Counts that may be left out -/

section

variable {o : Option (List Char)} (hnumbered : Numbered ts)
include hnumbered

theorem results_of_spells (hspells : Spells (Declaration.optional .arrow o) ts (t :: rest))
    (ht : t.kind ≠ .arrow) (hlt : ∀ lexeme ∈ o, denoted lexeme < 2 ^ 16) :
    results ts = .ok ((o.map denoted).getD 0) (t :: rest) := by
  refine Parser.bind_eq_ok.mpr ?_
  cases o with
  | none =>
    obtain rfl := spells_nil.mp hspells
    exact ⟨false, t :: rest, by rw [accepts, if_neg ht], rfl⟩
  | some lexeme =>
    obtain ⟨arrow, mid, rfl, harrow, hmid⟩ := spells_cons.mp hspells
    exact ⟨true, mid, by rw [accepts, if_pos (terminal_eq_symbol.mp harrow).1],
      (count_eq_ok hnumbered.tail).mpr ⟨lexeme, hmid, rfl, hlt lexeme rfl⟩⟩

theorem spells_of_results (h : results ts = .ok n rest) :
    ∃ o, Spells (Declaration.optional .arrow o) ts rest ∧ n = (o.map denoted).getD 0 ∧
      ∀ lexeme ∈ o, denoted lexeme < 2 ^ 16 := by
  obtain ⟨arrow, mid, haccepts, hcount⟩ := Parser.bind_eq_ok.mp h
  obtain _ | ⟨t, ts⟩ := ts
  · cases haccepts
  rw [accepts] at haccepts
  split at haccepts
  case isTrue harrow =>
    cases haccepts
    obtain ⟨lexeme, hspells, rfl, hlt⟩ := (count_eq_ok hnumbered.tail).mp hcount
    exact ⟨some lexeme, spells_cons.mpr
      ⟨t, _, rfl, terminal_eq_symbol.mpr ⟨harrow, nofun, nofun⟩, hspells⟩, rfl, by simpa using hlt⟩
  case isFalse =>
    cases haccepts
    cases hcount
    exact ⟨none, spells_nil.mpr rfl, rfl, nofun⟩

variable {params : ℕ}

theorem locals_of_spells (hspells : Spells (Declaration.optional .keywordLocals o) ts (t :: rest))
    (ht : t.kind ≠ .keywordLocals) (hlt : ∀ lexeme ∈ o, denoted lexeme < 2 ^ 16)
    (hparams : params ≤ (o.map denoted).getD params) :
    locals params ts = .ok ((o.map denoted).getD params) (t :: rest) := by
  cases o with
  | none =>
    obtain rfl := spells_nil.mp hspells
    rw [locals, if_neg ht]
    rfl
  | some lexeme =>
    obtain ⟨word, mid, rfl, hword, hmid⟩ := spells_cons.mp hspells
    have hcount := (count_eq_ok hnumbered.tail).mpr ⟨lexeme, hmid, rfl, hlt lexeme rfl⟩
    rw [locals, if_pos (terminal_eq_symbol.mp hword).1, hcount]
    exact if_neg (Nat.not_lt.mpr hparams)

theorem spells_of_locals (h : locals params ts = .ok n rest) :
    ∃ o, Spells (Declaration.optional .keywordLocals o) ts rest ∧
      n = (o.map denoted).getD params ∧ params ≤ n ∧
      ∀ lexeme ∈ o, denoted lexeme < 2 ^ 16 := by
  obtain _ | ⟨t, ts⟩ := ts
  · cases h
  rw [locals] at h
  split at h
  case isTrue hword =>
    split at h
    case h_1 => cases h
    case h_2 m mid hcount =>
      split at h
      case isTrue => cases h
      case isFalse hle =>
        cases h
        obtain ⟨lexeme, hspells, rfl, hlt⟩ := (count_eq_ok hnumbered.tail).mp hcount
        exact ⟨some lexeme, spells_cons.mpr
          ⟨t, ts, rfl, terminal_eq_symbol.mpr ⟨hword, nofun, nofun⟩, hspells⟩, rfl,
          Nat.not_lt.mp hle, by simpa using hlt⟩
  case isFalse =>
    cases h
    exact ⟨none, spells_nil.mpr rfl, rfl, Nat.le_refl _, nofun⟩

end

/-! ## Declarations -/

theorem reads_nil (name : String) (params : List ValueType) (locals returns : ℕ) :
    Reads ⟨name, params, locals, returns, #[], #[]⟩ [] ⟨name, params, locals, returns, #[], #[]⟩
      .empty :=
  ⟨rfl, rfl, rfl, rfl, Labels.holds_empty, List.nodup_nil, Nat.zero_le _⟩

theorem Declaration.WellFormed.move {x : Declaration} {functions functions' : List String}
    (h : x.WellFormed functions)
    (hcalls : ∀ name, .reference .call name ∈ x.items → name ∈ functions') :
    x.WellFormed functions' :=
  { h with calls_declared := hcalls }

theorem declaration_eq_ok {d : Draft} :
    declaration others ts = .ok d rest ↔
      ∃ name ts₁ ts₂ params ts₃ returns ts₄ ts₅ n ts₆ p,
        (Spells [.name name] ts ts₁ ∧ name ∉ names others) ∧
        Spells [.symbol .parenOpen] ts₁ ts₂ ∧ parameters [] ts₂ = .ok params ts₃ ∧
        results ts₃ = .ok returns ts₄ ∧ Spells [.symbol .braceOpen] ts₄ ts₅ ∧
        locals params.length ts₅ = .ok n ts₆ ∧
        body ⟨name, params, n, returns, #[], #[]⟩ .empty ts₆ = .ok p rest ∧
        p.1.resolve p.2 = .ok d := by
  constructor
  · intro h
    obtain ⟨name, ts₁, hname, h⟩ := Parser.bind_eq_ok.mp h
    obtain ⟨paren, ts₂, hparen, h⟩ := Parser.bind_eq_ok.mp h
    obtain ⟨params, ts₃, hparams, h⟩ := Parser.bind_eq_ok.mp h
    obtain ⟨returns, ts₄, hreturns, h⟩ := Parser.bind_eq_ok.mp h
    obtain ⟨brace, ts₅, hbrace, h⟩ := Parser.bind_eq_ok.mp h
    obtain ⟨n, ts₆, hlocals, h⟩ := Parser.bind_eq_ok.mp h
    obtain ⟨p, ts₇, hbody, h⟩ := Parser.bind_eq_ok.mp h
    obtain ⟨hresolve, rfl⟩ := Parser.ofExcept_eq_ok.mp h
    exact ⟨name, ts₁, ts₂, params, ts₃, returns, ts₄, ts₅, n, ts₆, p, freshName_eq_ok.mp hname,
      (expect_symbol _ (by decide)).mp ⟨paren, hparen⟩, hparams, hreturns,
      (expect_symbol _ (by decide)).mp ⟨brace, hbrace⟩, hlocals, hbody, hresolve⟩
  · rintro ⟨name, ts₁, ts₂, params, ts₃, returns, ts₄, ts₅, n, ts₆, p, hname, hparen, hparams,
      hreturns, hbrace, hlocals, hbody, hresolve⟩
    obtain ⟨paren, hparen⟩ := (expect_symbol _ (by decide)).mpr hparen
    obtain ⟨brace, hbrace⟩ := (expect_symbol _ (by decide)).mpr hbrace
    exact Parser.bind_eq_ok.mpr ⟨name, ts₁, freshName_eq_ok.mpr hname,
      Parser.bind_eq_ok.mpr ⟨paren, ts₂, hparen, Parser.bind_eq_ok.mpr ⟨params, ts₃, hparams,
      Parser.bind_eq_ok.mpr ⟨returns, ts₄, hreturns, Parser.bind_eq_ok.mpr ⟨brace, ts₅, hbrace,
      Parser.bind_eq_ok.mpr ⟨n, ts₆, hlocals, Parser.bind_eq_ok.mpr ⟨p, rest, hbody,
      Parser.ofExcept_eq_ok.mpr ⟨hresolve, rfl⟩⟩⟩⟩⟩⟩⟩⟩

theorem spells_declaration {x : Declaration} :
    Spells x.terminals ts rest ↔
      ∃ ts₁ ts₂ ts₃ ts₄ ts₅ ts₆, Spells [.name x.name] ts ts₁ ∧
        Spells [.symbol .parenOpen] ts₁ ts₂ ∧
        Spells ((x.params.map fun type => Terminal.name type.name).intersperse (.symbol .comma) ++
          [.symbol .parenClose]) ts₂ ts₃ ∧
        Spells (Declaration.optional .arrow x.returns) ts₃ ts₄ ∧
        Spells [.symbol .braceOpen] ts₄ ts₅ ∧
        Spells (Declaration.optional .keywordLocals x.locals) ts₅ ts₆ ∧
        Spells (x.items.flatMap Item.terminals ++ [.symbol .braceClose]) ts₆ rest := by
  have hterminals : x.terminals = [.name x.name] ++ ([.symbol .parenOpen] ++
      (((x.params.map fun type => Terminal.name type.name).intersperse (.symbol .comma) ++
        [.symbol .parenClose]) ++ (Declaration.optional .arrow x.returns ++ ([.symbol .braceOpen] ++
      (Declaration.optional .keywordLocals x.locals ++
        (x.items.flatMap Item.terminals ++ [.symbol .braceClose])))))) := by
    simp [Declaration.terminals]
  rw [hterminals]
  -- Parameters and items are read with the brackets behind them.
  generalize _ ++ [Terminal.symbol .parenClose] = types
  generalize _ ++ [Terminal.symbol .braceClose] = lines
  simp only [spells_append, exists_and_left]

theorem Reads.shows {x : Declaration} {d : Draft} {l : Labels}
    (h : Reads ⟨x.name, x.params, x.localCount, x.returnCount, #[], #[]⟩ x.items d l) :
    Draft.Shows { d with code := (instructions
      (fun o n => if o.isJump then position x.items n else 0) x.items).toArray } x where
  name_eq := by rw [h.head]
  params_eq := by rw [h.head]
  locals_eq := by rw [h.head]
  returns_eq := by rw [h.head]
  code := rfl
  calls := h.calls

/-- **What the parser reads is a declaration.** -/
theorem shows_of_declaration (hnumbered : Numbered ts) {d : Draft}
    (h : declaration others ts = .ok d rest) :
    ∃ x, Spells (Declaration.terminals x) ts rest ∧ d.Shows x ∧ x.name ∉ names others ∧
      ∃ functions, x.WellFormed functions := by
  obtain ⟨name, ts₁, ts₂, params, ts₃, returns, ts₄, ts₅, n, ts₆, p, ⟨hname, hnew⟩, hparen, hparams,
    hreturns, hbrace, hlocals, hbody, hresolve⟩ := declaration_eq_ok.mp h
  obtain ⟨hknown, htypes⟩ := parameters_eq_ok.mp hparams
  have hnumbered₃ := ((hnumbered.of_spells hname).of_spells hparen).of_spells htypes
  obtain ⟨o, harrow, rfl, ho⟩ := spells_of_results hnumbered₃ hreturns
  have hnumbered₅ := (hnumbered₃.of_spells harrow).of_spells hbrace
  obtain ⟨o', hword, rfl, hle, ho'⟩ := spells_of_locals hnumbered₅ hlocals
  obtain ⟨items, hitems, hspells, hreads⟩ :=
    reads_of_body (reads_nil _ _ _ _) (hnumbered₅.of_spells hword) hbody
  rw [List.nil_append] at hreads
  obtain ⟨hjumps, rfl⟩ := hreads.resolve_eq_ok.mp hresolve
  refine ⟨⟨name, params, o, o', items⟩, ?_, Reads.shows (x := ⟨name, params, o, o', items⟩) hreads,
    hnew, items.filterMap (Item.use? (· == .call)), ?_⟩
  · exact spells_declaration.mpr
      ⟨ts₁, ts₂, ts₃, ts₄, ts₅, ts₆, hname, hparen, htypes, harrow, hbrace, hword, hspells⟩
  · exact ⟨hknown, ho, ho', hle, hitems, hreads.size_eq ▸ hreads.size_le, hreads.nodup, hjumps,
      fun name hname => List.mem_filterMap.mpr ⟨_, hname, rfl⟩⟩

/-- **And every such declaration is read.** -/
theorem declaration_of_spells {x : Declaration} {functions : List String} (hnumbered : Numbered ts)
    (hspells : Spells x.terminals ts rest) (hnew : x.name ∉ names others)
    (hx : x.WellFormed functions) :
    ∃ d, declaration others ts = .ok d rest ∧ d.Shows x := by
  obtain ⟨ts₁, ts₂, ts₃, ts₄, ts₅, ts₆, hname, hparen, htypes, harrow, hbrace, hword, hitems⟩ :=
    spells_declaration.mp hspells
  have hnumbered₃ := ((hnumbered.of_spells hname).of_spells hparen).of_spells htypes
  have hnumbered₅ := (hnumbered₃.of_spells harrow).of_spells hbrace
  obtain ⟨next, after, rfl, -, hnext⟩ := exists_cons_of_spells hitems
  obtain ⟨brace, _, rfl, hkind, hmid⟩ := spells_cons.mp hbrace
  obtain rfl := spells_nil.mp hmid
  have hresults := results_of_spells hnumbered₃ harrow
    (by rw [(terminal_eq_symbol.mp hkind).1]; nofun) hx.returns_lt
  have hlocals := locals_of_spells hnumbered₅ hword hnext hx.locals_lt hx.params_le_locals
  obtain ⟨p, hbody, hreads⟩ := body_of_spells
    (reads_nil x.name x.params x.localCount x.returnCount) (hnumbered₅.of_spells hword)
    hx.grammatical hitems hx.labels_nodup hx.size_le
  refine ⟨_, declaration_eq_ok.mpr ⟨x.name, ts₁, ts₂, x.params, ts₃, x.returnCount, _, _,
    x.localCount, _, p, ⟨hname, hnew⟩, hparen, parameters_eq_ok.mpr ⟨hx.params_known, htypes⟩,
    hresults, hbrace, hlocals, hbody, hreads.resolve_eq_ok.mpr ⟨hx.jumps_declared, rfl⟩⟩,
    Reads.shows hreads⟩

end StackCircuit.Assembly
