import Droidspaces.Config.Save

/-!
# Arguments before they are parsed

`ds_resolve_argv_paths` makes the paths among the arguments absolute, and `ds_client_run` drops
`-f` where there is no terminal.  Both go through the whole vector.  What they leave of the
arguments behind the word `run` is settled neighbour by neighbour (`resolveArgvPaths_eq_self_iff`)
and by where the first `-f` stands (`suffix_eraseP_iff`).
-/

namespace Droidspaces.Cli

open Config

/-! ## Resolving a path -/

/-- What the process knows about paths. -/
structure PathHost where
  home : Option Text
  cwd : Option Text
  cwd_absolute : ∀ d ∈ cwd, d.head? = some '/'
  realpath : Text → Option Text
  realpath_absolute : ∀ p, ∀ r ∈ realpath p, r.head? = some '/'

variable (host : PathHost)

/-- `~` and `~/...` -/
def expandHome (p : Text) : Text :=
  match p, host.home with
  | '~' :: t, some home => if t = [] ∨ t.head? = some '/' then home ++ t else p
  | _, _ => p

def dropDotSlash : Text → Text
  | '.' :: '/' :: t => dropDotSlash t
  | t => t

/-- Slashes at the end, but not a slash that is all there is. -/
def dropSlashes : Text → Text
  | c :: t => c :: t.rdropWhile (· == '/')
  | [] => []

def dsResolvePathArg (path : Text) : Text :=
  if path = [] then []
  else
    let p := expandHome host path
    if p.head? = some '/' then dropSlashes p
    else
      match host.realpath p with
      | some r => r
      | none =>
        let suffix := dropDotSlash p
        match host.cwd with
        | none => if suffix = [] then ['.'] else p
        | some cwd =>
          if suffix = [] then cwd
          else if CustomBinds.pathMax ≤ cwd.length + 1 + suffix.length then p
          else cwd ++ '/' :: suffix

/-- `SRC:DEST`, of which the source is a path of the host. -/
def resolveToken (tok : Text) : Text :=
  dsResolvePathArg host (tok.takeWhile (· != ':')) ++ tok.dropWhile (· != ':')

/-- A result that is too long for the buffer is given up. -/
def resolveBindSrc (val : Text) : Text :=
  let out := joinComma ((tokens val).map (resolveToken host))
  if out.length < val.length + CustomBinds.pathMax * (val.count ',' + 1) + 1 then out else val

/-! ## `ds_resolve_argv_paths` -/

structure PathOpt where
  opt : String
  isBind : Bool

def dsPathOpts : List PathOpt := [
  ⟨"--rootfs", false⟩, ⟨"-r", false⟩, ⟨"--rootfs-img", false⟩, ⟨"-i", false⟩,
  ⟨"--conf", false⟩, ⟨"--config", false⟩, ⟨"-C", false⟩, ⟨"--env", false⟩,
  ⟨"-E", false⟩, ⟨"--bind-mount", true⟩, ⟨"--bind", true⟩, ⟨"-B", true⟩]

def resolveValue (o : PathOpt) (val : Text) : Text :=
  if val = [] ∨ (val.head? = some '/' ∧ ¬ o.isBind) then val
  else if o.isBind then resolveBindSrc host val
  else dsResolvePathArg host val

/-- The form `--opt=VALUE`. -/
def ownValue (arg : Text) : Text :=
  match dsPathOpts.find? fun o => (o.opt.toList ++ ['=']).isPrefixOf arg with
  | some o =>
    o.opt.toList ++ '=' :: resolveValue host o (arg.drop (o.opt.toList.length + 1))
  | none => arg

/-- The form `--opt VALUE`: what becomes of the element behind `arg`. -/
def nextValue (arg val : Text) : Text :=
  match dsPathOpts.find? fun o => o.opt.toList == arg with
  | some o => resolveValue host o val
  | none => val

/-- The loop over the vector from `arg` on.  No option of the table is skipped for want of a dash,
and none has an equals sign, so that at most one of the two forms applies. -/
def resolveFrom : Text → List Text → List Text
  | arg, [] => [ownValue host arg]
  | arg, val :: rest => ownValue host arg :: resolveFrom (nextValue host arg val) rest

def dsResolveArgvPaths : List Text → List Text
  | [] => []
  | arg :: rest => resolveFrom host arg rest

/-! ## `ds_client_run` -/

def isForeground (arg : Text) : Bool := arg == "-f".toList || arg == "--foreground".toList

def isStart (arg : Text) : Bool := arg == "start".toList || arg == "restart".toList

def isInteractive (arg : Text) : Bool := arg == "enter".toList || arg == "run".toList || isStart arg

/-- The word that asks for a terminal: `enter`, or `-f` if something is started. -/
def forcesTty (argv : List Text) : Option Text :=
  argv.find? fun arg => arg == "enter".toList || (isForeground arg && argv.any isStart)

/-- The vector that is sent; a terminal that cannot be had is an error for `enter`. -/
def dsClientRun (hasTty : Bool) (argv : List Text) : Option (List Text) :=
  if argv.any isInteractive && !hasTty then
    match forcesTty argv with
    | some arg => if arg = "enter".toList then none else some (argv.eraseP isForeground)
    | none => some argv
  else some argv

/-! ## A command line on its way -/

structure Way where
  user : PathHost
  hasTty : Bool
  /-- `DS_NO_PROXY` is not set. -/
  proxied : Bool
  /-- A daemon listens and takes the request. -/
  taken : List Text → Bool
  daemon : PathHost

/-- The argument vector (without the name of the program) at each point where it may differ: in
`main`, behind `ds_client_run` in the same process, and in the process that the daemon starts. -/
def Way.stages (way : Way) (argv : List Text) : List (List Text) :=
  let argv := dsResolveArgvPaths way.user argv
  argv ::
    if way.proxied then
      match dsClientRun way.hasTty argv with
      | none => []
      | some sent => sent :: if way.taken sent then [dsResolveArgvPaths way.daemon sent] else []
    else []

/-! ## Resolving, neighbour by neighbour -/

theorem not_mem_opt {o : PathOpt} (ho : o ∈ dsPathOpts) : '=' ∉ o.opt.toList := by
  have hall : (dsPathOpts.all fun o => !o.opt.toList.contains '=') = true := by decide
  simpa using List.all_eq_true.1 hall o ho

/-- What has an equals sign is none of the options. -/
theorem nextValue_of_mem {arg : Text} (h : '=' ∈ arg) (val : Text) :
    nextValue host arg val = val := by
  have hnone : (dsPathOpts.find? fun o => o.opt.toList == arg) = none := by
    rw [List.find?_eq_none]
    intro o ho heq
    rw [beq_iff_eq] at heq
    exact not_mem_opt ho (heq ▸ h)
  rw [nextValue, hnone]

/-- An element has the same to say before and after its own value is resolved. -/
theorem nextValue_ownValue (arg val : Text) :
    nextValue host (ownValue host arg) val = nextValue host arg val := by
  unfold ownValue
  split
  · next o ho =>
    have hprefix : o.opt.toList ++ ['='] <+: arg := by
      simpa using List.find?_some ho
    have harg : '=' ∈ arg := hprefix.subset (by simp)
    rw [nextValue_of_mem host (by simp), nextValue_of_mem host harg]
  · rfl

/-- What is made of an element behind another. -/
def settled (arg val : Text) : Text := ownValue host (nextValue host arg val)

/-- No value in a list, read behind the element before it, is resolved to anything else. -/
def IsSettled (argv : List Text) : Prop := argv.IsChain fun arg val => settled host arg val = val

theorem resolveFrom_eq_cons_iff {seen arg : Text} {rest : List Text} :
    resolveFrom host seen rest = arg :: rest ↔
      ownValue host seen = arg ∧ IsSettled host (arg :: rest) := by
  induction rest generalizing seen arg with
  | nil => simp [resolveFrom, IsSettled]
  | cons val rest ih =>
    rw [resolveFrom, List.cons.injEq, ih, IsSettled, IsSettled, List.isChain_cons_cons]
    refine and_congr_right fun hseen => ?_
    rw [settled, ← hseen, nextValue_ownValue]

theorem length_resolveFrom (seen : Text) (rest : List Text) :
    (resolveFrom host seen rest).length = rest.length + 1 := by
  induction rest generalizing seen with
  | nil => rfl
  | cons val rest ih => rw [resolveFrom, List.length_cons, ih, List.length_cons]

/-- The elements behind one that no option is left of are resolved on their own. -/
theorem resolveFrom_append {word : Text}
    (hword : ∀ seen val, nextValue host (nextValue host seen word) val = val) (seen : Text)
    (before tail : List Text) :
    resolveFrom host seen (before ++ word :: tail) =
      resolveFrom host seen (before ++ [word]) ++ dsResolveArgvPaths host tail := by
  induction before generalizing seen with
  | nil =>
    cases tail with
    | nil => simp [dsResolveArgvPaths]
    | cons val tail => simp [resolveFrom, dsResolveArgvPaths, hword]
  | cons arg before ih =>
    rw [List.cons_append, resolveFrom, ih, List.cons_append, resolveFrom, List.cons_append]

/-! ## The word `run` -/

def runWord : Text := "run".toList

/-- What the word `run` can become. -/
def IsWord (w : Text) : Prop := w = runWord ∨ w.head? = some '/'

theorem IsWord.head?_ne {w : Text} (h : IsWord w) : w.head? ≠ some '-' := by
  rcases h with rfl | h
  · decide
  · rw [h]
    decide

theorem head?_opt {o : PathOpt} (ho : o ∈ dsPathOpts) : o.opt.toList.head? = some '-' := by
  have hall : (dsPathOpts.all fun o => o.opt.toList.head? == some '-') = true := by decide
  simpa using List.all_eq_true.1 hall o ho

theorem IsWord.nextValue {w : Text} (h : IsWord w) (val : Text) : nextValue host w val = val := by
  have hnone : (dsPathOpts.find? fun o => o.opt.toList == w) = none := by
    rw [List.find?_eq_none]
    intro o ho heq
    rw [beq_iff_eq] at heq
    exact h.head?_ne (heq ▸ head?_opt ho)
  rw [Cli.nextValue, hnone]

theorem IsWord.ownValue {w : Text} (h : IsWord w) : ownValue host w = w := by
  have hnone : (dsPathOpts.find? fun o => (o.opt.toList ++ ['=']).isPrefixOf w) = none := by
    rw [List.find?_eq_none]
    intro o ho hprefix
    obtain ⟨t, rfl⟩ := List.isPrefixOf_iff_prefix.1 hprefix
    apply h.head?_ne
    rw [List.append_assoc, List.head?_append_of_ne_nil]
    · exact head?_opt ho
    · intro hnil
      have hhead := head?_opt ho
      rw [hnil] at hhead
      cases hhead
  rw [Cli.ownValue, hnone]

theorem IsWord.ne_nil {w : Text} (h : IsWord w) : w ≠ [] := by
  rintro rfl
  rcases h with h | h
  · exact absurd h (by decide)
  · cases h

theorem IsWord.expandHome {w : Text} (h : IsWord w) : expandHome host w = w := by
  unfold Cli.expandHome
  split
  · next t home =>
    rcases h with h | h
    · exact absurd (List.cons.inj h).1 (by decide)
    · exact absurd (Option.some.inj h) (by decide)
  · rfl

theorem head?_dsResolvePathArg {w : Text} (h : w.head? = some '/') :
    (dsResolvePathArg host w).head? = some '/' := by
  have hword : IsWord w := Or.inr h
  obtain ⟨t, rfl⟩ : ∃ t, w = '/' :: t := List.head?_eq_some_iff.1 h
  rw [dsResolvePathArg, if_neg hword.ne_nil, hword.expandHome, if_pos h]
  rfl

theorem isWord_dsResolvePathArg_run : IsWord (dsResolvePathArg host runWord) := by
  have hword : IsWord runWord := Or.inl rfl
  have hsuffix : dropDotSlash runWord = runWord := rfl
  unfold dsResolvePathArg
  rw [if_neg hword.ne_nil, hword.expandHome]
  dsimp only
  rw [if_neg (by decide)]
  split
  · next r hr => exact Or.inr (host.realpath_absolute _ r hr)
  · rw [hsuffix]
    split
    · exact Or.inl (if_neg (by decide))
    · next cwd hcwd =>
      rw [if_neg (by decide)]
      split
      · exact Or.inl rfl
      · have hhead := host.cwd_absolute cwd hcwd
        rw [IsWord, List.head?_append, hhead]
        exact Or.inr rfl

theorem exists_tokens_cons {c : Char} (hc : c ≠ ',') (t : Text) :
    ∃ s ts, tokens (c :: t) = (c :: s) :: ts := by
  have hcomma : (c == ',') = false := beq_eq_false_iff_ne.2 hc
  obtain ⟨s, ss, hss⟩ := List.exists_cons_of_ne_nil (List.splitOn_ne_nil ',' t)
  refine ⟨s, ss.filter (!·.isEmpty), ?_⟩
  rw [tokens, List.splitOn_cons_eq_if_modifyHead, hcomma, hss]
  rfl

theorem head?_joinComma {t : Text} (ht : t ≠ []) (ts : List Text) :
    (joinComma (t :: ts)).head? = t.head? := by
  cases ts with
  | nil => simp [joinComma]
  | cons u us => rw [joinComma_cons_cons, List.head?_append_of_ne_nil t ht]

/-- An absolute path stays one, and the word `run` becomes one if it becomes anything. -/
theorem IsWord.resolveBindSrc {w : Text} (h : IsWord w) : IsWord (resolveBindSrc host w) := by
  unfold Cli.resolveBindSrc
  dsimp only
  split
  · rcases h with rfl | habs
    · have hout : joinComma ((tokens runWord).map (resolveToken host)) =
          dsResolvePathArg host runWord := by
        change joinComma [dsResolvePathArg host runWord ++ []] = _
        simp [joinComma]
      rw [hout]
      exact isWord_dsResolvePathArg_run host
    · obtain ⟨t, rfl⟩ : ∃ t, w = '/' :: t := List.head?_eq_some_iff.1 habs
      obtain ⟨s, ts, hts⟩ := exists_tokens_cons (c := '/') (by decide) t
      have hsrc : (dsResolvePathArg host (('/' :: s).takeWhile (· != ':'))).head? = some '/' :=
        head?_dsResolvePathArg host rfl
      have htok : (resolveToken host ('/' :: s)).head? = some '/' := by
        rw [resolveToken, List.head?_append, hsrc]
        rfl
      have hne : resolveToken host ('/' :: s) ≠ [] := by
        intro hnil
        rw [hnil] at htok
        cases htok
      right
      rw [hts, List.map_cons, head?_joinComma hne, htok]
  · exact h

theorem IsWord.nextValue_isWord {w : Text} (h : IsWord w) (seen : Text) :
    IsWord (Cli.nextValue host seen w) := by
  unfold Cli.nextValue
  split
  · next o ho =>
    unfold resolveValue
    split
    · exact h
    · next hresolve =>
      split
      · exact h.resolveBindSrc host
      · next hbind =>
        push Not at hresolve
        have hrun : w = runWord := h.resolve_right fun habs => hbind (hresolve.2 habs)
        rw [hrun]
        exact isWord_dsResolvePathArg_run host
  · exact h

theorem IsWord.not_isForeground {w : Text} (h : IsWord w) : isForeground w = false := by
  rw [isForeground, Bool.or_eq_false_iff, beq_eq_false_iff_ne, beq_eq_false_iff_ne]
  refine ⟨?_, ?_⟩
  · rintro rfl
    exact h.head?_ne rfl
  · rintro rfl
    exact h.head?_ne rfl

section Tail

variable {word : Text} (hword : IsWord word) (before tail : List Text)
include hword

/-- **The elements behind the word are resolved on their own.** -/
theorem dsResolveArgvPaths_append :
    dsResolveArgvPaths host (before ++ word :: tail) =
      dsResolveArgvPaths host (before ++ [word]) ++ dsResolveArgvPaths host tail := by
  have hnext (seen val : Text) : nextValue host (nextValue host seen word) val = val :=
    (hword.nextValue_isWord host seen).nextValue host val
  cases before with
  | nil =>
    cases tail with
    | nil => simp [dsResolveArgvPaths]
    | cons val tail =>
      change resolveFrom host word (val :: tail) = resolveFrom host word [] ++ _
      rw [resolveFrom, resolveFrom, hword.nextValue]
      rfl
  | cons arg before => exact resolveFrom_append host hnext arg before tail

/-- The word stays a word. -/
theorem exists_dsResolveArgvPaths_eq : ∃ before' word',
    dsResolveArgvPaths host (before ++ [word]) = before' ++ [word'] ∧ IsWord word' := by
  have hfrom (args : List Text) (seen : Text) : ∃ before' word',
      resolveFrom host seen (args ++ [word]) = before' ++ [word'] ∧ IsWord word' := by
    induction args generalizing seen with
    | nil =>
      refine ⟨[ownValue host seen], nextValue host seen word, ?_, hword.nextValue_isWord host seen⟩
      rw [List.nil_append, resolveFrom, resolveFrom,
        (hword.nextValue_isWord host seen).ownValue host]
      rfl
    | cons arg args ih =>
      obtain ⟨before', word', heq, hword'⟩ := ih (nextValue host seen arg)
      exact ⟨ownValue host seen :: before', word', by rw [List.cons_append, resolveFrom, heq]; rfl,
        hword'⟩
  cases before with
  | nil => exact ⟨[], word, by simp [dsResolveArgvPaths, resolveFrom, hword.ownValue], hword⟩
  | cons arg before => exact hfrom before arg

theorem dsResolveArgvPaths_eq_self_iff :
    dsResolveArgvPaths host tail = tail ↔ IsSettled host (word :: tail) := by
  cases tail with
  | nil => simp [dsResolveArgvPaths, IsSettled]
  | cons val tail =>
    rw [dsResolveArgvPaths, resolveFrom_eq_cons_iff, IsSettled, IsSettled, List.isChain_cons_cons,
      settled, hword.nextValue]

omit hword in
theorem length_dsResolveArgvPaths :
    (dsResolveArgvPaths host tail).length = tail.length := by
  cases tail with
  | nil => rfl
  | cons val tail => exact length_resolveFrom host val tail

theorem suffix_dsResolveArgvPaths_iff :
    tail <:+ dsResolveArgvPaths host (before ++ word :: tail) ↔
      IsSettled host (word :: tail) := by
  rw [dsResolveArgvPaths_append host hword, ← dsResolveArgvPaths_eq_self_iff host hword]
  constructor
  · intro h
    have hsuffix := List.suffix_append (dsResolveArgvPaths host (before ++ [word]))
      (dsResolveArgvPaths host tail)
    exact ((List.suffix_of_suffix_length_le h hsuffix
      (length_dsResolveArgvPaths host tail).ge).eq_of_length
      (length_dsResolveArgvPaths host tail).symm).symm
  · intro h
    rw [h]
    exact List.suffix_append _ _

end Tail

/-! ## What is stripped -/

theorem cons_eraseP_ne {p : Text → Bool} {w : Text} (hw : p w = false) {tail : List Text}
    (h : tail.any p = true) : w :: tail.eraseP p ≠ tail := by
  induction tail generalizing w with
  | nil => cases h
  | cons t tail ih =>
    intro heq
    obtain ⟨rfl, htail⟩ := List.cons.inj heq
    rw [List.eraseP_cons_of_neg (by simp [hw])] at htail
    rw [List.any_cons, hw, Bool.false_or] at h
    exact ih hw h htail

/-- **Dropping the first `-f` spares the arguments behind the word if one stands before it.** -/
theorem suffix_eraseP_iff {word : Text} (hword : IsWord word) {before tail : List Text}
    (hany : (before ++ word :: tail).any isForeground = true) :
    tail <:+ (before ++ word :: tail).eraseP isForeground ↔
      before.any isForeground = true := by
  have hplain := hword.not_isForeground
  constructor
  · intro h
    by_contra hbefore
    have hnone : ∀ a ∈ before, ¬ isForeground a = true := by simpa using hbefore
    have htail : tail.any isForeground = true := by
      rw [List.any_append, List.any_cons, hplain, Bool.eq_false_of_not_eq_true hbefore] at hany
      exact hany
    rw [List.eraseP_append_right _ hnone, List.eraseP_cons_of_neg (by simp [hplain])] at h
    have hlen : tail.length = (word :: tail.eraseP isForeground).length := by
      obtain ⟨a, ha, hforeground⟩ := List.any_eq_true.1 htail
      have hpos := List.length_pos_of_mem ha
      rw [List.length_cons, List.length_eraseP_of_mem ha hforeground]
      omega
    have hsuffix := List.suffix_append before (word :: tail.eraseP isForeground)
    have heq := (List.suffix_of_suffix_length_le h hsuffix hlen.le).eq_of_length hlen
    exact cons_eraseP_ne hplain htail heq.symm
  · intro hbefore
    obtain ⟨a, ha, hforeground⟩ := List.any_eq_true.1 hbefore
    rw [List.eraseP_append_left hforeground _ ha]
    exact ⟨before.eraseP isForeground ++ [word], by simp⟩

/-- What `dsClientRun` does without a terminal. -/
def strips (hasTty : Bool) (argv : List Text) : Bool :=
  argv.any isInteractive && !hasTty && (forcesTty argv).any isForeground

theorem any_isForeground_of_strips {hasTty : Bool} {argv : List Text}
    (h : strips hasTty argv = true) : argv.any isForeground = true := by
  rw [strips, Bool.and_eq_true] at h
  obtain ⟨arg, hfind, hforeground⟩ := (Option.any_eq_true ..).1 h.2
  exact List.any_eq_true.2 ⟨arg, List.mem_of_find?_eq_some hfind, hforeground⟩

/-- What is sent, if anything is. -/
theorem dsClientRun_eq_some {hasTty : Bool} {argv sent : List Text}
    (h : dsClientRun hasTty argv = some sent) :
    sent = if strips hasTty argv = true then argv.eraseP isForeground else argv := by
  unfold dsClientRun at h
  unfold strips
  split at h
  · next hcond =>
    cases hforces : forcesTty argv with
    | none =>
      rw [hforces] at h
      simpa using (Option.some.inj h).symm
    | some arg =>
      rw [hforces] at h
      dsimp only at h
      split at h
      · cases h
      · next henter =>
        have hforeground : isForeground arg = true := by
          have hfound := List.find?_some hforces
          simp only [Bool.or_eq_true, beq_iff_eq, henter, false_or, Bool.and_eq_true] at hfound
          exact hfound.1
        simpa [hcond, hforeground] using (Option.some.inj h).symm
  · next hcond =>
    rw [Bool.eq_false_of_not_eq_true hcond]
    exact (Option.some.inj h).symm

/-! ## The arguments of the command -/

/-- The arguments behind the word `run` are at the end of the vector wherever it may differ. -/
def Way.Keeps (way : Way) (before tail : List Text) : Prop :=
  ∀ argv ∈ way.stages (before ++ runWord :: tail), tail <:+ argv

/-- When they are. -/
structure Way.Spares (way : Way) (before tail : List Text) : Prop where
  user : IsSettled way.user (runWord :: tail)
  /-- If a `-f` is dropped, one stands before the word. -/
  strip : way.proxied = true →
    strips way.hasTty (dsResolveArgvPaths way.user (before ++ [runWord]) ++ tail) = true →
      (dsResolveArgvPaths way.user (before ++ [runWord])).any isForeground = true
  daemon : way.proxied = true → ∀ sent,
    dsClientRun way.hasTty (dsResolveArgvPaths way.user (before ++ [runWord]) ++ tail) = some sent →
      way.taken sent = true → IsSettled way.daemon (runWord :: tail)

theorem isSettled_congr {word word' : Text} (hword : IsWord word) (hword' : IsWord word')
    (tail : List Text) : IsSettled host (word :: tail) ↔ IsSettled host (word' :: tail) := by
  rw [← dsResolveArgvPaths_eq_self_iff host hword, dsResolveArgvPaths_eq_self_iff host hword']

theorem dsClientRun_of_strips {hasTty : Bool} {argv : List Text}
    (h : strips hasTty argv = true) :
    dsClientRun hasTty argv = some (argv.eraseP isForeground) := by
  unfold strips at h
  rw [Bool.and_eq_true] at h
  obtain ⟨arg, hforces, hforeground⟩ := (Option.any_eq_true ..).1 h.2
  have hne : arg ≠ "enter".toList := by
    rintro rfl
    exact absurd hforeground (by decide)
  rw [dsClientRun, if_pos h.1, show forcesTty argv = some arg from hforces]
  exact if_neg hne

theorem Way.mem_stages (way : Way) {args argv : List Text} :
    argv ∈ way.stages args ↔ argv = dsResolveArgvPaths way.user args ∨
      way.proxied = true ∧ ∃ sent,
        dsClientRun way.hasTty (dsResolveArgvPaths way.user args) = some sent ∧
          (argv = sent ∨ way.taken sent = true ∧ argv = dsResolveArgvPaths way.daemon sent) := by
  unfold Way.stages
  dsimp only
  rw [List.mem_cons]
  refine or_congr Iff.rfl ?_
  cases way.proxied with
  | false => simp
  | true =>
    cases dsClientRun way.hasTty (dsResolveArgvPaths way.user args) with
    | none => simp
    | some sent => cases htaken : way.taken sent <;> simp [htaken]

/-- What is sent ends as it did. -/
theorem exists_sent_eq {hasTty : Bool} {word : Text} {before tail sent : List Text}
    (hsafe : strips hasTty (before ++ word :: tail) = true → before.any isForeground = true)
    (hsent : dsClientRun hasTty (before ++ word :: tail) = some sent) :
    ∃ before', sent = before' ++ word :: tail := by
  rw [dsClientRun_eq_some hsent]
  split
  · next hstrips =>
    obtain ⟨a, ha, hforeground⟩ := List.any_eq_true.1 (hsafe hstrips)
    exact ⟨before.eraseP isForeground, List.eraseP_append_left hforeground _ ha⟩
  · exact ⟨before, rfl⟩

/-- A shell in `/root`, where nothing is found. -/
def inRoot : PathHost where
  home := none
  cwd := some "/root".toList
  cwd_absolute := by rintro d ⟨⟩; rfl
  realpath _ := none
  realpath_absolute := by rintro p r ⟨⟩

/-- No daemon is asked. -/
def direct : Way where
  user := inRoot
  hasTty := true
  proxied := false
  taken _ := false
  daemon := inRoot

end Droidspaces.Cli
