import Droidspaces.Cli.ArgvPaths
import Droidspaces.Cli.Overrides
import Droidspaces.Config.Built

/-!
# The paths that the passes deliver

`ds_resolve_argv_paths` goes by a table of its own, and the passes after it by `getopt_long`, which
knows more spellings: `-r./x`, `-fr ./x`, `--conf-i=./x`.  A value in one of those is delivered as it
was given.  `trace` goes through the vector as `getopt_long` does; `delivers_iff_isCovered` says
which values have to be absolute already and which can be made so.
-/

namespace Droidspaces.Cli

open Config Getopt

/-! ## What is wanted -/

/-- The options about paths; the flag says whether there are sources of bind mounts. -/
def pathKind : Opt → Option Bool
  | .rootfs | .rootfsImg | .conf | .text .envFile => some false
  | .bind => some true
  | _ => none

/-- Absolute, or empty. -/
def IsAbsolute (path : Text) : Prop := path = [] ∨ path.head? = some '/'

def HasAbsolutePaths (isBind : Bool) (val : Text) : Prop :=
  if isBind then ∀ tok ∈ tokens val, IsAbsolute (bindSource tok) else IsAbsolute val

def IsAbsoluteFor (opt : Opt) (val : Text) : Prop :=
  ∀ isBind ∈ pathKind opt, HasAbsolutePaths isBind val

/-- An event that delivers no relative path. -/
def Delivers : Event Opt → Prop
  | .option opt val => IsAbsoluteFor opt val
  | .invalid => True

/-! ## The passes -/

def restartWord : Text := "restart".toList

/-- The first word that the discovery pass comes to; it does not change the vector, and ends at the
word `run`. -/
def discoveredCmd (argv : List Text) : Option Text :=
  ((tokenize options false argv).words.flatMap Item.elements).head?

def isStrict (argv : List Text) : Bool := discoveredCmd argv == some runWord

/-- `argv[optind]` after a loop. -/
def firstLeft (ts : Tokens Opt) : Option Text :=
  (ts.words.flatMap Item.elements ++ ts.ending.back).head?

/-- The command that `main` dispatches, after the second of the two loops. -/
def dispatchedCmd (strict : Bool) (argv : List Text) : Option Text :=
  firstLeft (tokenize options strict (callUntil options strict isReset argv).2)

/-- What the passes deliver that follow `ds_resolve_argv_paths`, as far as no value ends them: the
discovery pass, `ds_apply_cli_overrides`, and for `restart` the same once more, not strictly, if
`again`.  The search for `--reset` delivers nothing that the discovery pass does not. -/
def passes (again : Bool) (argv : List Text) : List (Event Opt) :=
  let strict := isStrict argv
  let (_, events, argv') := searchThenCall options strict isReset argv
  (tokenize options strict argv).events ++ events ++
    if again && dispatchedCmd strict argv == some restartWord then
      (searchThenCall options false isReset argv').2.1
    else []

/-! ## What can be resolved -/

variable (host : PathHost)

/-- What `ds_resolve_path_arg` makes absolute. -/
def CanResolve (path : Text) : Prop :=
  path = [] ∨ (expandHome host path).head? = some '/' ∨
    (host.realpath (expandHome host path)).isSome ∨
    ∃ cwd ∈ host.cwd, dropDotSlash (expandHome host path) = [] ∨
      cwd.length + 1 + (dropDotSlash (expandHome host path)).length < CustomBinds.pathMax

/-- A path that is not cut up at its commas, or so that each piece is a path or comes behind one. -/
def IsOnePath (path : Text) : Prop :=
  ∀ piece ∈ tokens path, piece.head? = some '/' ∨ piece.head? = some ':'

/-- The buffer of `resolve_bind_src` is large enough. -/
def FitsBuffer (val : Text) : Prop :=
  (joinComma ((tokens val).map (resolveToken host))).length <
    val.length + CustomBinds.pathMax * (val.count ',' + 1) + 1

instance (val : Text) : Decidable (FitsBuffer host val) := Nat.decLt _ _

/-- What `ds_resolve_argv_paths` can do with a value that it sees. -/
def IsResolvable (isBind : Bool) (val : Text) : Prop :=
  if isBind then
    if FitsBuffer host val then ∀ tok ∈ tokens val, IsOnePath (dsResolvePathArg host (bindSource tok))
    else HasAbsolutePaths true val
  else CanResolve host val

theorem isAbsolute_dsResolvePathArg_iff (path : Text) :
    IsAbsolute (dsResolvePathArg host path) ↔ CanResolve host path := by
  unfold dsResolvePathArg CanResolve
  by_cases hnil : path = []
  · rw [if_pos hnil]
    exact iff_of_true (Or.inl rfl) (Or.inl hnil)
  rw [if_neg hnil, or_iff_right hnil]
  dsimp only
  generalize expandHome host path = p
  by_cases habs : p.head? = some '/'
  · rw [if_pos habs]
    refine iff_of_true (Or.inr ?_) (Or.inl habs)
    obtain ⟨t, rfl⟩ := List.head?_eq_some_iff.1 habs
    rfl
  rw [if_neg habs, or_iff_right habs]
  cases hreal : host.realpath p with
  | some r => exact iff_of_true (Or.inr (host.realpath_absolute p r hreal)) (Or.inl rfl)
  | none =>
    rw [Option.isSome_none, or_iff_right Bool.false_ne_true]
    dsimp only
    have hrel : dropDotSlash p ≠ [] → ¬ IsAbsolute p := by
      rintro hne (rfl | hhead)
      · exact hne rfl
      · exact habs hhead
    cases hcwd : host.cwd with
    | none =>
      refine iff_of_false ?_ (by simp)
      dsimp only
      split
      · exact fun h => h.elim (by decide) (by decide)
      · next hne => exact hrel hne
    | some cwd =>
      have hroot := host.cwd_absolute cwd hcwd
      simp only [Option.mem_some_iff, exists_eq_left']
      split
      · next hempty => exact iff_of_true (Or.inr hroot) (Or.inl hempty)
      · next hne =>
        rw [or_iff_right hne]
        split
        · next hlong => exact iff_of_false (hrel hne) (Nat.not_lt.2 hlong)
        · next hshort =>
          refine iff_of_true (Or.inr ?_) (Nat.not_le.1 hshort)
          rw [List.head?_append, hroot]
          rfl

/-- The source of a token that is not empty. -/
theorem isAbsolute_bindSource_iff {tok : Text} (hne : tok ≠ []) :
    IsAbsolute (bindSource tok) ↔ tok.head? = some '/' ∨ tok.head? = some ':' := by
  obtain ⟨c, t, rfl⟩ := List.exists_cons_of_ne_nil hne
  unfold IsAbsolute bindSource
  by_cases hcolon : c = ':'
  · subst hcolon
    exact iff_of_true (Or.inl rfl) (Or.inr rfl)
  · rw [List.takeWhile_cons_of_pos (by simpa using hcolon)]
    simp [hcolon]

/-- What stands behind a source leaves its pieces as they are. -/
theorem isOnePath_append_iff (path : Text) {rest : Text} (hcomma : ',' ∉ rest)
    (hcolon : rest = [] ∨ rest.head? = some ':') :
    IsOnePath (path ++ rest) ↔ IsOnePath path := by
  by_cases hmem : ',' ∈ path
  · obtain ⟨before, after, rfl, -⟩ := List.eq_append_cons_of_mem hmem
    have ih := isOnePath_append_iff after hcomma hcolon
    unfold IsOnePath at ih ⊢
    rw [List.append_assoc, List.cons_append, tokens_append_comma, tokens_append_comma,
      List.forall_mem_append, List.forall_mem_append, ih]
  · unfold IsOnePath
    by_cases hnil : path = []
    · subst hnil
      rcases hcolon with rfl | hcolon
      · rfl
      · have hne : rest ≠ [] := by
          rintro rfl
          cases hcolon
        rw [List.nil_append, tokens_of_not_mem hne hcomma]
        simpa [tokens] using Or.inr hcolon
    · rw [tokens_of_not_mem (by simp [hnil]) (by simp [hmem, hcomma]), tokens_of_not_mem hnil hmem,
        List.forall_mem_singleton, List.forall_mem_singleton, List.head?_append_of_ne_nil _ hnil]
termination_by path.length

theorem hasAbsolutePaths_resolveBindSrc_iff (val : Text) :
    HasAbsolutePaths true (resolveBindSrc host val) ↔ IsResolvable host true val := by
  have heq : resolveBindSrc host val = if FitsBuffer host val then
      joinComma ((tokens val).map (resolveToken host)) else val := rfl
  rw [IsResolvable, if_pos rfl, heq]
  split
  · rw [HasAbsolutePaths, if_pos rfl, tokens_joinComma_eq_flatMap, List.flatMap_map]
    simp only [List.mem_flatMap, forall_exists_index, and_imp]
    rw [forall_comm]
    refine forall_congr' fun tok => ?_
    rw [forall_comm]
    refine forall_congr' fun htok => ?_
    obtain ⟨-, hcomma⟩ := mem_tokens htok
    have hrest : ',' ∉ tok.dropWhile (· != ':') := fun h =>
      hcomma ((List.dropWhile_suffix _).subset h)
    have hcolon : tok.dropWhile (· != ':') = [] ∨ (tok.dropWhile (· != ':')).head? = some ':' := by
      have hhead := List.head?_dropWhile_not (· != ':') tok
      cases hdrop : tok.dropWhile (· != ':') with
      | nil => exact Or.inl rfl
      | cons c t =>
        rw [hdrop] at hhead
        exact Or.inr (congrArg some (by simpa using hhead))
    rw [bindSource, ← isOnePath_append_iff _ hrest hcolon]
    refine forall_congr' fun piece => forall_congr' fun hpiece => ?_
    exact isAbsolute_bindSource_iff (mem_tokens hpiece).1
  · rfl

theorem hasAbsolutePaths_nil (isBind : Bool) : HasAbsolutePaths isBind [] := by
  cases isBind with
  | false => exact Or.inl rfl
  | true => exact fun _ htok => absurd htok List.not_mem_nil

theorem hasAbsolutePaths_resolveValue_iff (o : PathOpt) (val : Text) :
    HasAbsolutePaths o.isBind (resolveValue host o val) ↔ IsResolvable host o.isBind val := by
  unfold resolveValue
  by_cases hnil : val = []
  · subst hnil
    rw [if_pos (Or.inl rfl)]
    refine iff_of_true (hasAbsolutePaths_nil _) ?_
    cases o.isBind with
    | false => exact Or.inl rfl
    | true =>
      rw [IsResolvable, if_pos rfl]
      split
      · exact fun _ htok => absurd htok List.not_mem_nil
      · exact hasAbsolutePaths_nil true
  · cases hbind : o.isBind with
    | true =>
      rw [if_neg (by simp [hnil]), if_pos rfl]
      exact hasAbsolutePaths_resolveBindSrc_iff host val
    | false =>
      split
      · next hplain =>
        have habs : val.head? = some '/' := (hplain.resolve_left hnil).1
        have hword : IsWord val := Or.inr habs
        refine iff_of_true (Or.inr habs) (Or.inr (Or.inl ?_))
        rwa [hword.expandHome]
      · rw [if_neg Bool.false_ne_true]
        exact isAbsolute_dsResolvePathArg_iff host val

/-! ## The vector as `getopt_long` reads it -/

/-- A value before it is resolved. -/
structure Given where
  opt : Opt
  val : Text
  /-- In a spelling that the table has. -/
  seen : Bool

def Given.IsFine (g : Given) : Prop :=
  ∀ isBind ∈ pathKind g.opt,
    if g.seen then IsResolvable host isBind g.val else HasAbsolutePaths isBind g.val

/-- A whole name and an equals sign. -/
def isAssignment (arg : Text) : Bool :=
  dashes.isPrefixOf arg && dsPathOpts.any fun o => (o.opt.toList ++ ['=']).isPrefixOf arg

def isTableName (arg : Text) : Bool := dsPathOpts.any fun o => o.opt.toList == arg

def givenOf (seen : Bool) : Event Opt → Option Given
  | .option opt val => some ⟨opt, val, seen⟩
  | .invalid => none

/-- The values in an element. -/
def ownGivens (arg : Text) : List Given :=
  (readElement options arg).events.filterMap (givenOf (isAssignment arg))

structure Trace where
  givens : List Given
  words : List Text
  /-- The option at the end that lacks its argument. -/
  missing : Option Opt
  /-- There is a `--reset`. -/
  reset : Bool

def Trace.word (w : Text) (tr : Trace) : Trace := { tr with words := w :: tr.words }

def Trace.give (gs : List Given) (reset : Bool) (tr : Trace) : Trace :=
  { tr with givens := gs ++ tr.givens, reset := reset || tr.reset }

/-- The elements behind `seen`.  An argument that looks like an option of the table is taken for one:
what stands behind it is resolved, and is no option any more if that makes it absolute. -/
def trace (strict : Bool) (seen : Text) : List Text → Trace
  | [] => ⟨[], [], none, false⟩
  | next :: rest =>
    let arg := nextValue host seen next
    if arg = dashes then ⟨[], [], none, false⟩
    else if isOption arg = false then
      if strict then ⟨[], [], none, false⟩
      else (trace strict arg rest).word arg
    else
      match (readElement options arg).wants with
      | none => (trace strict arg rest).give (ownGivens arg)
          ((readElement options arg).events.any isReset)
      | some opt =>
        match rest with
        | val :: rest => (trace strict (nextValue host arg val) rest).give
            (ownGivens arg ++ [⟨opt, val, isTableName arg⟩])
            ((readElement options arg).events.any isReset)
        | [] => ⟨ownGivens arg, [], some opt, false⟩

/-! ## One element, resolved -/

/-- The options of the table with a value of their own, and how `getopt_long` reads them: the short
ones deliver the equals sign too. -/
theorem readElement_table {o : PathOpt} (ho : o ∈ dsPathOpts) : ∃ opt,
    readElement options o.opt.toList = ⟨[], some opt⟩ ∧ pathKind opt = some o.isBind ∧
      ((∀ val, dashes.isPrefixOf (o.opt.toList ++ '=' :: val) = true ∧
          readElement options (o.opt.toList ++ '=' :: val) = ⟨[.option opt val], none⟩) ∨
        ∀ val, dashes.isPrefixOf (o.opt.toList ++ '=' :: val) = false ∧
          readElement options (o.opt.toList ++ '=' :: val) = ⟨[.option opt ('=' :: val)], none⟩) := by
  simp only [dsPathOpts, List.mem_cons, List.not_mem_nil, or_false] at ho
  rcases ho with rfl | rfl | rfl | rfl | rfl | rfl | rfl | rfl | rfl | rfl | rfl | rfl
  all_goals
    first
    | exact ⟨_, rfl, rfl, Or.inl fun val => ⟨rfl, rfl⟩⟩
    | exact ⟨_, rfl, rfl, Or.inr fun val => ⟨rfl, rfl⟩⟩

theorem not_hasAbsolutePaths {c : Char} (hslash : c ≠ '/') (hcolon : c ≠ ':') (hcomma : c ≠ ',')
    (isBind : Bool) (val : Text) : ¬ HasAbsolutePaths isBind (c :: val) := by
  cases isBind with
  | false => exact fun h => h.elim (List.cons_ne_nil c val) fun h => hslash (Option.some.inj h)
  | true =>
    obtain ⟨s, ts, htokens⟩ := exists_tokens_cons hcomma val
    intro h
    rw [HasAbsolutePaths, if_pos rfl, htokens] at h
    have hfirst := (isAbsolute_bindSource_iff (List.cons_ne_nil c s)).1 (h _ List.mem_cons_self)
    exact hfirst.elim (fun h => hslash (Option.some.inj h)) fun h => hcolon (Option.some.inj h)

/-- What an element says is said by the element with its own value resolved. -/
structure SameReading (arg arg' : Text) : Prop where
  isOption : isOption arg' = isOption arg
  eq_dashes : arg' = dashes ↔ arg = dashes
  wants : (readElement options arg').wants = (readElement options arg).wants
  reset : (readElement options arg').events.any isReset =
    (readElement options arg).events.any isReset
  delivers : (∀ e ∈ (readElement options arg').events, Delivers e) ↔
    ∀ g ∈ ownGivens arg, g.IsFine host

theorem ownGivens_of_events {arg : Text} {opt : Opt} {val : Text} {wants : Option Opt}
    (h : readElement options arg = ⟨[.option opt val], wants⟩) :
    ownGivens arg = [⟨opt, val, isAssignment arg⟩] := by
  rw [ownGivens, h]
  rfl

theorem isOption_assign {o : PathOpt} (ho : o ∈ dsPathOpts) (val : Text) :
    isOption (o.opt.toList ++ '=' :: val) = true ∧ o.opt.toList ++ '=' :: val ≠ dashes := by
  have hmem : '=' ∈ o.opt.toList ++ '=' :: val := by simp
  have hhead : (o.opt.toList ++ '=' :: val).head? = some '-' := by
    rw [List.head?_append, head?_opt ho]
    rfl
  have hne {t : Text} (ht : '=' ∉ t) : o.opt.toList ++ '=' :: val ≠ t := by
    rintro rfl
    exact ht hmem
  refine ⟨?_, hne (by decide)⟩
  rw [isOption, hhead, Bool.and_eq_true, bne_iff_ne]
  exact ⟨rfl, hne (by decide)⟩

theorem isFine_iff {opt : Opt} {isBind : Bool} (h : pathKind opt = some isBind) (val : Text)
    (seen : Bool) : Given.IsFine host ⟨opt, val, seen⟩ ↔
      if seen then IsResolvable host isBind val else HasAbsolutePaths isBind val := by
  unfold Given.IsFine
  simp [h]

theorem isAbsoluteFor_iff {opt : Opt} {isBind : Bool} (h : pathKind opt = some isBind)
    (val : Text) : IsAbsoluteFor opt val ↔ HasAbsolutePaths isBind val := by
  unfold IsAbsoluteFor
  simp [h]

theorem sameReading_assign {o : PathOpt} (ho : o ∈ dsPathOpts) (val : Text) :
    SameReading host (o.opt.toList ++ '=' :: val)
      (o.opt.toList ++ '=' :: resolveValue host o val) := by
  obtain ⟨opt, -, hkind, hread⟩ := readElement_table ho
  have hisOption := (isOption_assign ho (resolveValue host o val)).1.trans
    (isOption_assign ho val).1.symm
  have hdashes := iff_of_false (isOption_assign ho (resolveValue host o val)).2
    (isOption_assign ho val).2
  have hreset (t : Text) : isReset (.option opt t) = false := by
    cases opt with
    | reset => cases hkind
    | _ => rfl
  rcases hread with hlong | hshort
  · obtain ⟨hdashes', hval⟩ := hlong val
    obtain ⟨-, hval'⟩ := hlong (resolveValue host o val)
    have hassign : isAssignment (o.opt.toList ++ '=' :: val) = true := by
      rw [isAssignment, hdashes', Bool.true_and, List.any_eq_true]
      exact ⟨o, ho, List.isPrefixOf_iff_prefix.2 ⟨val, by simp⟩⟩
    refine ⟨hisOption, hdashes, by rw [hval, hval'], by simp [hval, hval', hreset], ?_⟩
    rw [hval', ownGivens_of_events hval, hassign, List.forall_mem_singleton,
      List.forall_mem_singleton, isFine_iff host hkind, if_pos rfl]
    exact (isAbsoluteFor_iff hkind _).trans (hasAbsolutePaths_resolveValue_iff host o val)
  · obtain ⟨hdashes', hval⟩ := hshort val
    obtain ⟨-, hval'⟩ := hshort (resolveValue host o val)
    have hassign : isAssignment (o.opt.toList ++ '=' :: val) = false := by
      rw [isAssignment, hdashes', Bool.false_and]
    refine ⟨hisOption, hdashes, by rw [hval, hval'], by simp [hval, hval', hreset], ?_⟩
    rw [hval', ownGivens_of_events hval, hassign, List.forall_mem_singleton,
      List.forall_mem_singleton, isFine_iff host hkind, if_neg Bool.false_ne_true]
    have hequals := not_hasAbsolutePaths (c := '=') (by decide) (by decide) (by decide) o.isBind
    exact iff_of_false (fun h => hequals _ ((isAbsoluteFor_iff hkind _).1 h)) (hequals val)

theorem sameReading_ownValue (arg : Text) : SameReading host arg (ownValue host arg) := by
  unfold ownValue
  split
  · next o ho =>
    have hmem := List.mem_of_find?_eq_some ho
    have hprefix := List.find?_some ho
    obtain ⟨val, rfl⟩ := List.isPrefixOf_iff_prefix.1 hprefix
    have hdrop : (o.opt.toList ++ ['='] ++ val).drop (o.opt.toList.length + 1) = val := by
      rw [List.drop_left' (by simp)]
    have hvalue : o.opt.toList ++ ['='] ++ val = o.opt.toList ++ '=' :: val := by simp
    rw [hdrop, hvalue]
    exact sameReading_assign host hmem val
  · next hnone =>
    have hseen : isAssignment arg = false := by
      rw [isAssignment, Bool.and_eq_false_iff, List.any_eq_false]
      exact Or.inr (List.find?_eq_none.1 hnone)
    refine ⟨rfl, Iff.rfl, rfl, rfl, ?_⟩
    unfold ownGivens
    rw [hseen]
    induction (readElement options arg).events with
    | nil => simp
    | cons e events ih =>
      rw [List.forall_mem_cons, ih]
      cases e with
      | invalid => exact and_iff_right trivial
      | option opt val =>
        rw [List.filterMap_cons_some (f := givenOf false) rfl, List.forall_mem_cons]
        exact and_congr_left' Iff.rfl

/-! ## The vector, resolved -/

/-- What becomes of the elements behind `seen`. -/
def resolveBehind (seen : Text) : List Text → List Text
  | [] => []
  | next :: rest => resolveFrom host (nextValue host seen next) rest

theorem resolveFrom_eq_cons (arg : Text) (rest : List Text) :
    resolveFrom host arg rest = ownValue host arg :: resolveBehind host arg rest := by
  cases rest with
  | nil => rfl
  | cons val rest => rfl

theorem resolveBehind_cons (seen next : Text) (rest : List Text) :
    resolveBehind host seen (next :: rest) =
      ownValue host (nextValue host seen next) ::
        resolveBehind host (nextValue host seen next) rest :=
  resolveFrom_eq_cons host (nextValue host seen next) rest

theorem dsResolveArgvPaths_eq_resolveBehind (argv : List Text) :
    dsResolveArgvPaths host argv = resolveBehind host [] argv := by
  cases argv with
  | nil => rfl
  | cons arg rest =>
    have hnil : nextValue host [] arg = arg := rfl
    rw [resolveBehind, hnil, dsResolveArgvPaths]

/-- Only an option of the table does anything to the element behind it. -/
theorem nextValue_of_isTableName_eq_false {arg : Text} (h : isTableName arg = false) (val : Text) :
    nextValue host arg val = val := by
  have hnone : (dsPathOpts.find? fun o => o.opt.toList == arg) = none :=
    List.find?_eq_none.2 (List.any_eq_false.1 h)
  rw [nextValue, hnone]

theorem exists_of_isTableName {arg : Text} (h : isTableName arg = true) :
    ∃ o ∈ dsPathOpts, o.opt.toList = arg ∧
      ∀ val, nextValue host arg val = resolveValue host o val := by
  cases hfind : dsPathOpts.find? fun o => o.opt.toList == arg with
  | none => exact absurd h (by simpa [isTableName] using hfind)
  | some o =>
    have harg : (o.opt.toList == arg) = true :=
      List.find?_some (p := fun o : PathOpt => o.opt.toList == arg) hfind
    exact ⟨o, List.mem_of_find?_eq_some hfind, beq_iff_eq.1 harg, fun val => by
      rw [nextValue, hfind]⟩

/-- What begins with a dash is no path, whatever becomes of its own value. -/
theorem hasAbsolutePaths_ownValue_iff (isBind : Bool) (val : Text) :
    HasAbsolutePaths isBind (ownValue host val) ↔ HasAbsolutePaths isBind val := by
  unfold ownValue
  split
  · next o ho =>
    have hmem := List.mem_of_find?_eq_some ho
    have hprefix := List.find?_some ho
    obtain ⟨t, rfl⟩ := List.isPrefixOf_iff_prefix.1 hprefix
    obtain ⟨name, hname⟩ := List.head?_eq_some_iff.1 (head?_opt hmem)
    rw [hname]
    have hdash := not_hasAbsolutePaths (c := '-') (by decide) (by decide) (by decide) isBind
    exact iff_of_false (hdash _) (hdash _)
  · rfl

theorem isAbsoluteFor_nextValue_iff {arg : Text} {opt : Opt}
    (h : (readElement options arg).wants = some opt) (val : Text) :
    IsAbsoluteFor opt (ownValue host (nextValue host arg val)) ↔
      Given.IsFine host ⟨opt, val, isTableName arg⟩ := by
  unfold IsAbsoluteFor Given.IsFine
  refine forall_congr' fun isBind => forall_congr' fun hkind => ?_
  rw [hasAbsolutePaths_ownValue_iff]
  cases htable : isTableName arg with
  | false => rw [nextValue_of_isTableName_eq_false host htable, if_neg Bool.false_ne_true]
  | true =>
    obtain ⟨o, ho, rfl, hnext⟩ := exists_of_isTableName host htable
    obtain ⟨opt', hread, hkind', -⟩ := readElement_table ho
    rw [hread, Option.some.injEq] at h
    subst h
    obtain rfl : o.isBind = isBind := Option.some.inj (hkind'.symm.trans hkind)
    rw [hnext, if_pos rfl]
    exact hasAbsolutePaths_resolveValue_iff host o val

theorem ownValue_of_isOption_eq_false {arg : Text} (h : isOption arg = false) :
    ownValue host arg = arg := by
  unfold ownValue
  split
  · next o ho =>
    have hprefix := List.find?_some ho
    obtain ⟨val, rfl⟩ := List.isPrefixOf_iff_prefix.1 hprefix
    rw [List.append_assoc] at h
    exact absurd ((isOption_assign (List.mem_of_find?_eq_some ho) val).1.symm.trans h)
      (by decide)
  · rfl

/-- The option that lacks its argument. -/
def missingOpt (ts : Tokens Opt) : Option Opt :=
  match ts.ending with
  | .missing arg _ => (readElement options arg).wants
  | _ => none

/-- A reading of the resolved vector, and what the vector says. -/
structure Matches (ts : Tokens Opt) (tr : Trace) : Prop where
  delivers : (∀ e ∈ ts.events, Delivers e) ↔ ∀ g ∈ tr.givens, g.IsFine host
  words : ts.words.flatMap Item.elements = tr.words
  missing : missingOpt ts = tr.missing
  reset : (ts.items.any fun it => it.events.any isReset) = tr.reset

variable {host} {ts : Tokens Opt} {tr : Trace}

theorem Matches.word (h : Matches host ts tr) (w : Text) :
    Matches host (ts.cons (.word w)) (tr.word w) where
  delivers := h.delivers
  words := congrArg (w :: ·) h.words
  missing := h.missing
  reset := h.reset

theorem Matches.give (h : Matches host ts tr) {elements : List Text} {events : List (Event Opt)}
    {gs : List Given} {reset : Bool}
    (hgs : (∀ e ∈ events, Delivers e) ↔ ∀ g ∈ gs, g.IsFine host)
    (hreset : events.any isReset = reset) :
    Matches host (ts.cons (.option elements events)) (tr.give gs reset) where
  delivers := by
    have hevents : (ts.cons (.option elements events)).events = events ++ ts.events := by
      simp [Tokens.events, Item.events]
    rw [hevents, Trace.give, List.forall_mem_append, List.forall_mem_append, hgs, h.delivers]
  words := h.words
  missing := h.missing
  reset := by
    rw [Tokens.cons_items, List.any_cons, h.reset]
    exact congrArg (· || tr.reset) hreset

variable (host)

theorem matches_trace (strict : Bool) (seen : Text) (argv : List Text) :
    Matches host (tokenize options strict (resolveBehind host seen argv))
      (trace host strict seen argv) := by
  fun_induction trace host strict seen argv with
  | case1 seen =>
    exact ⟨by simp [resolveBehind, tokenize, Tokens.events, Ending.events], rfl, rfl, rfl⟩
  | case2 seen next rest arg hdashes =>
    have hread := sameReading_ownValue host arg
    rw [resolveBehind_cons, tokenize.eq_def]
    dsimp only
    rw [if_pos (hread.eq_dashes.2 hdashes)]
    exact ⟨by simp [Tokens.events, Ending.events], rfl, rfl, rfl⟩
  | case3 seen next rest arg hdashes hword hstrict =>
    have hread := sameReading_ownValue host arg
    rw [resolveBehind_cons, tokenize.eq_def]
    dsimp only
    rw [if_neg (mt hread.eq_dashes.1 hdashes), if_pos (hread.isOption.trans hword), if_pos hstrict]
    exact ⟨by simp [Tokens.events, Ending.events], rfl, rfl, rfl⟩
  | case4 seen next rest arg hdashes hword hstrict ih =>
    have hread := sameReading_ownValue host arg
    rw [resolveBehind_cons, tokenize.eq_def]
    dsimp only
    rw [if_neg (mt hread.eq_dashes.1 hdashes), if_pos (hread.isOption.trans hword), if_neg hstrict,
      ownValue_of_isOption_eq_false host hword]
    exact ih.word arg
  | case5 seen next rest arg hdashes hword hwants ih =>
    have hread := sameReading_ownValue host arg
    rw [resolveBehind_cons, tokenize.eq_def]
    dsimp only
    rw [if_neg (mt hread.eq_dashes.1 hdashes), if_neg (hread.isOption ▸ hword),
      hread.wants.trans hwants]
    exact ih.give hread.delivers hread.reset
  | case6 seen next arg hdashes hword opt hwants val rest ih =>
    have hread := sameReading_ownValue host arg
    rw [resolveBehind_cons, resolveBehind_cons, tokenize.eq_def]
    dsimp only
    rw [if_neg (mt hread.eq_dashes.1 hdashes), if_neg (hread.isOption ▸ hword),
      hread.wants.trans hwants]
    refine ih.give ?_ ?_
    · rw [List.forall_mem_append, List.forall_mem_append, hread.delivers, List.forall_mem_singleton,
        List.forall_mem_singleton]
      exact and_congr_right' (isAbsoluteFor_nextValue_iff host hwants val)
    · rw [List.any_append, hread.reset, List.any_cons, not_isReset_of_wants arg opt _ hwants]
      simp
  | case7 seen next arg hdashes hword opt hwants =>
    have hread := sameReading_ownValue host arg
    have hmissing : tokenize options strict (resolveBehind host seen [next]) =
        ⟨[], .missing (ownValue host arg) (readElement options (ownValue host arg)).events⟩ := by
      rw [resolveBehind_cons, tokenize.eq_def]
      dsimp only
      rw [if_neg (mt hread.eq_dashes.1 hdashes), if_neg (hread.isOption ▸ hword),
        hread.wants.trans hwants]
      rfl
    rw [hmissing]
    refine ⟨?_, rfl, hread.wants.trans hwants, rfl⟩
    rw [← hread.delivers, Tokens.events, List.flatMap_nil, List.nil_append, Ending.events,
      List.forall_mem_append, List.forall_mem_singleton]
    exact and_iff_left trivial

/-! ## All passes -/

theorem exists_of_missingOpt {ts : Tokens Opt} {opt : Opt} (h : missingOpt ts = some opt) :
    ∃ arg events, ts.ending = .missing arg events ∧ (readElement options arg).wants = some opt := by
  unfold missingOpt at h
  split at h
  · next arg events hending => exact ⟨arg, events, hending, h⟩
  · cases h

/-- The word `run` ends the passes that are strict for it, and is dispatched. -/
theorem dispatchedCmd_of_isStrict {argv : List Text} (h : isStrict argv = true) :
    dispatchedCmd true argv = some runWord := by
  obtain ⟨ws, hdiscovered⟩ := words_eq_cons_of_head? (beq_iff_eq.1 h)
  obtain ⟨rest, hending⟩ := ending_of_words_eq_cons hdiscovered
  have hkept : (tokenize options true (callUntil options true isReset argv).2).ending =
      (tokenize options true argv).ending := by
    cases hany : (tokenize options true argv).items.any fun it => it.events.any isReset with
    | true => exact (filter_callUntil_of_any isReset argv hany).2.2.2
    | false =>
      rw [callUntil_of_any_eq_false hany, tokenize_argv_of_words_eq_nil (words_eq_nil argv)]
  rw [dispatchedCmd, firstLeft, words_eq_nil, hkept, hending]
  rfl

theorem dispatchedCmd_of_any {strict : Bool} {argv : List Text} {w : Text} {ws : List (Item Opt)}
    (hany : ((tokenize options strict argv).items.any fun it => it.events.any isReset) = true)
    (hwords : (tokenize options strict argv).words = .word w :: ws) :
    dispatchedCmd strict argv = some w := by
  rw [dispatchedCmd, firstLeft, (filter_callUntil_of_any isReset argv hany).2.2.1, hwords]
  rfl

/-- The passes deliver what the first one does, and perhaps a word that an option without an argument
has taken. -/
theorem delivers_passes_iff (again : Bool) (argv : List Text) :
    (∀ e ∈ passes again argv, Delivers e) ↔
      (∀ e ∈ (tokenize options (isStrict argv) argv).events, Delivers e) ∧
      ∀ opt w, missingOpt (tokenize options (isStrict argv) argv) = some opt →
        ((tokenize options (isStrict argv) argv).words.flatMap Item.elements).head? = some w →
        (((tokenize options (isStrict argv) argv).items.any fun it => it.events.any isReset) = true →
          again = true ∧ w = restartWord) →
        IsAbsoluteFor opt w := by
  unfold passes
  dsimp only
  cases hstrict : isStrict argv with
  | true =>
    have hsettled : (tokenize options true argv).IsSettled := Or.inl (words_eq_nil argv)
    have hcmd : (dispatchedCmd true argv == some restartWord) = false := by
      rw [dispatchedCmd_of_isStrict hstrict]
      decide
    rw [searchThenCall_of_isSettled isReset argv hsettled, hcmd, Bool.and_false,
      if_neg Bool.false_ne_true, List.append_nil, List.forall_mem_append, and_self_iff,
      words_eq_nil]
    refine (and_iff_left fun opt w _ hword => ?_).symm
    cases hword
  | false =>
    by_cases hsettled : (tokenize options false argv).IsSettled
    · obtain ⟨⟨hevents, -⟩, hagain⟩ := alike_tokenize_argv argv hsettled
      rw [searchThenCall_of_isSettled isReset argv hsettled]
      dsimp only
      rw [searchThenCall_of_isSettled isReset _ hagain, hevents, List.forall_mem_append,
        List.forall_mem_append, and_self_iff]
      refine and_congr_right fun hall => iff_of_true ?_ fun opt w hmissing hword => ?_
      · split
        · exact hall
        · exact fun _ he => absurd he List.not_mem_nil
      · obtain ⟨ws, hwords⟩ := words_eq_cons_of_head? hword
        obtain ⟨arg, events, hending, -⟩ := exists_of_missingOpt hmissing
        exact (hsettled.elim (fun hnil => List.cons_ne_nil _ _ (hwords.symm.trans hnil))
          fun hnone => hnone arg events hending).elim
    · obtain ⟨arg, events, w, ws, hending, hwords⟩ := exists_words_of_not_isSettled hsettled
      obtain ⟨i, taken, hwants, htaken, hcalls, hagain⟩ :=
        searchThenCall_missing isReset hending hwords
      have hevents : (tokenize options false argv).events =
          (tokenize options false argv).items.flatMap Item.events ++ (events ++ [.invalid]) := by
        rw [Tokens.events, hending]
        rfl
      have hdelivers : (∀ e ∈ taken, Delivers e) ↔
          (∀ e ∈ (tokenize options false argv).events, Delivers e) ∧ IsAbsoluteFor i w := by
        rw [htaken, hevents, ← List.append_assoc]
        simp only [List.forall_mem_append, List.forall_mem_singleton]
        exact and_congr_left' (and_iff_left trivial).symm
      have hmissing : missingOpt (tokenize options false argv) = some i := by
        rw [missingOpt, hending]
        exact hwants
      have hword : ((tokenize options false argv).words.flatMap Item.elements).head? = some w := by
        rw [hwords]
        rfl
      have hright (p : Opt → Text → Prop) : (∀ opt w',
          missingOpt (tokenize options false argv) = some opt →
          ((tokenize options false argv).words.flatMap Item.elements).head? = some w' →
          p opt w') ↔ p i w := by
        refine ⟨fun h => h i w hmissing hword, fun h opt w' hopt hw' => ?_⟩
        obtain rfl : i = opt := Option.some.inj (hmissing.symm.trans hopt)
        obtain rfl : w = w' := Option.some.inj (hword.symm.trans hw')
        exact h
      rw [hright fun opt w => (_ → again = true ∧ w = restartWord) → IsAbsoluteFor opt w]
      rcases hpass : searchThenCall options false isReset argv with ⟨reset, events', argv'⟩
      rw [hpass] at hcalls
      obtain ⟨rfl, rfl⟩ := Prod.mk.inj hcalls
      dsimp only
      rw [hagain, List.forall_mem_append, List.forall_mem_append]
      cases hany : (tokenize options false argv).items.any fun it => it.events.any isReset with
      | true =>
        rw [if_pos rfl, dispatchedCmd_of_any hany hwords, and_self_iff]
        refine and_congr_right fun hall => ?_
        split
        · next hcond =>
          simp only [Bool.and_eq_true, beq_iff_eq, Option.some.injEq] at hcond
          rw [hdelivers, and_iff_right hall]
          exact ⟨fun h _ => h, fun h => h fun _ => hcond⟩
        · next hcond =>
          simp only [Bool.and_eq_true, beq_iff_eq, Option.some.injEq] at hcond
          exact iff_of_true (fun _ he => absurd he List.not_mem_nil)
            fun h => absurd (h rfl) hcond
      | false =>
        rw [if_neg Bool.false_ne_true, hdelivers, ← and_assoc, and_self_iff]
        constructor
        · exact fun h => ⟨h.1.1, fun _ => h.1.2⟩
        · intro h
          have hboth := And.intro h.1 (h.2 fun hreset => absurd hreset Bool.false_ne_true)
          refine ⟨hboth, ?_⟩
          split
          · exact hdelivers.2 hboth
          · exact fun _ he => absurd he List.not_mem_nil

/-- The first word is `run`, as far as the vector shows it before it is resolved. -/
def endsAtRun (argv : List Text) : Bool := (trace host false [] argv).words.head? == some runWord

/-- Each path is given in a spelling of the table and can be made absolute, or it is absolute already
(`fine`), and so is a word that an option at the end has taken for want of an argument.  It takes one
if the words are put behind it before its last pass, which a `--reset` leaves to `restart`. -/
structure IsCovered (again : Bool) (argv : List Text) : Prop where
  fine : ∀ g ∈ (trace host (endsAtRun host argv) [] argv).givens, g.IsFine host
  taken : ∀ opt w, (trace host (endsAtRun host argv) [] argv).missing = some opt →
    (trace host (endsAtRun host argv) [] argv).words.head? = some w →
    ((trace host (endsAtRun host argv) [] argv).reset = true → again = true ∧ w = restartWord) →
    IsAbsoluteFor opt w

/-- **The passes deliver absolute paths only, exactly if each of them is covered.** -/
theorem delivers_iff_isCovered (again : Bool) (argv : List Text) :
    (∀ e ∈ passes again (dsResolveArgvPaths host argv), Delivers e) ↔
      IsCovered host again argv := by
  have hstrict : isStrict (dsResolveArgvPaths host argv) = endsAtRun host argv := by
    rw [isStrict, endsAtRun, discoveredCmd, dsResolveArgvPaths_eq_resolveBehind,
      (matches_trace host false [] argv).words]
  have hmatches := matches_trace host (endsAtRun host argv) [] argv
  rw [← dsResolveArgvPaths_eq_resolveBehind] at hmatches
  rw [delivers_passes_iff, hstrict, hmatches.delivers, hmatches.words, hmatches.missing,
    hmatches.reset]
  exact ⟨fun h => ⟨h.1, h.2⟩, fun h => ⟨h.fine, h.taken⟩⟩

/-- `-r./x` is not seen. -/
theorem not_delivers_attached : ¬ ∀ (host : PathHost) (again : Bool) (argv : List Text),
    ∀ e ∈ passes again (dsResolveArgvPaths host argv), Delivers e := by
  intro h
  have hmem : Event.option .rootfs "./x".toList ∈
      passes false (dsResolveArgvPaths inRoot ["-r./x".toList, "start".toList]) := by
    decide +kernel
  have hpath : IsAbsoluteFor .rootfs "./x".toList := h inRoot false _ _ hmem
  exact not_hasAbsolutePaths (by decide) (by decide) (by decide) false _ (hpath false rfl)

example : Event.option .rootfs "/root/x".toList ∈
    passes false (dsResolveArgvPaths inRoot ["-r".toList, "./x".toList, "start".toList]) := by
  decide +kernel

end Droidspaces.Cli
