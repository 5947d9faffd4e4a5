import Droidspaces.Lifecycle.LockFile
import Droidspaces.Sequential.FileTree
import Droidspaces.Shell.Words
import Mathlib.Data.List.Dedup
import Mathlib.Order.WithBot

/-!
# Autoboot

After the boot of the host a script looks for files with the name `container.config`, makes a table
of the ones with `run_at_boot=1`, sorts it and starts one container after the other.  The script of
the boot module and the one of the vendor partition differ in where their commands come from only.

`boots_right` says for which trees these are the installed containers, each once and in the order
of their priorities.
-/

namespace Droidspaces.Autoboot

open Sequential Shell

/-- The directory of the containers, with the texts of its files. -/
abbrev Tree := FileTree Text

/-- What is outside the tree: `droidspaces` itself, and the shell and its commands when they are
given words that name nothing in it. -/
structure Host (W : Type) where
  /-- The regular files that are not in the tree, such as those with a relative path. -/
  elsewhere : Text → Option Text
  /-- Pathname expansion. -/
  expand : Text → List Text
  /-- The verdict of `grep` when its pattern starts with a dash. -/
  grepOption : Text → Bool
  /-- `droidspaces --config FILE start` -/
  start : W → Text → W
  /-- What `droidspaces --config FILE pid` prints. -/
  pid : W → Text → Text

/-- The fields of a `container.config` that the script reads. -/
structure Container where
  cfg : Text
  name : Text
  priority : Text
  netMode : Text
  gateway : Text
  deriving DecidableEq

/-! ## The script -/

def containersDir : Path := ["data", "local", "Droidspaces", "Containers"]

def pathText (p : Path) : Text := p.flatMap fun c => '/' :: c.toList

/-- `find "${CONTAINERS_DIR}" -name "container.config"` -/
def found (t : Tree) : List Path :=
  (t.entries.map Prod.fst).dedup.filter fun p =>
    containersDir.isPrefixOf p && p.getLast? == some "container.config"

def readNumber (t : Text) : Option ℕ :=
  if t.isEmpty || t.any (!·.isDigit) then none else some (leadingNumber t)

/-- A priority that is missing or no number becomes the largest one that is expected. -/
def prioColumn (t : Text) : Text := if (readNumber t).isSome then t else "99999999".toList

/-- The placeholder of an empty field. -/
def orDash (t : Text) : Text := if t.isEmpty then ['-'] else t

def columns (c : Container) : List Text :=
  [prioColumn c.priority, c.name, orDash c.netMode, orDash c.gateway, c.cfg]

def row (c : Container) : Text := ['\t'].intercalate (columns c)

/-- `sort -t"${TAB}" -k1,1n -k2,2`: lines that are equal in this are compared as a whole. -/
def sortKey (line : Text) : ℕ ×ₗ Text ×ₗ Text :=
  let fields := line.splitOn '\t'
  toLex (leadingNumber (fields.getD 0 []), toLex (fields.getD 1 [], line))

/-- `basename "$(dirname "$c")"` -/
def dirBasename (w : Text) : Text :=
  match ((w.splitOn '/').filter (!·.isEmpty)).dropLast.getLast? with
  | some c => c
  | none => if w.head? == some '/' then ['/'] else ['.']

/-- The first line with the key, up to the end of the line. -/
def getCfgVal (key : String) (text : Text) : Text :=
  match (text.splitOn '\n').find? fun line => (key.toList ++ ['=']).isPrefixOf line with
  | some line => ((line.dropWhile (· != '=')).drop 1).filter fun c => c != '\r' && c != '\n'
  | none => []

section Script

variable {W : Type} (host : Host W) (t : Tree)

/-- The text of the regular file that a word names. -/
def contents (w : Text) : Option Text :=
  match t.entries.find? fun e => pathText e.1 == w with
  | some (_, .file text) => some text
  | some (_, .dir) => none
  | none => host.elsewhere w

def getVal (key : String) (w : Text) : Text :=
  match contents host t w with
  | some text => getCfgVal key text
  | none => []

def nameOf (w : Text) : Text :=
  let name := getVal host t "name" w
  if name.isEmpty then dirBasename w else name

def containerAt (w : Text) : Container where
  cfg := w
  name := nameOf host t w
  priority := getVal host t "run_at_boot_priority" w
  netMode := getVal host t "net_mode" w
  gateway := getVal host t "gateway_container" w

/-- What the output of `find`, which is not quoted, is turned into. -/
def scanned : List Text :=
  (words ((found t).flatMap fun p => pathText p ++ ['\n'])).flatMap host.expand

def runAtBoot (w : Text) : Bool :=
  (contents host t w).isSome && getVal host t "run_at_boot" w == "1".toList

def bootTable : List Text :=
  ((scanned host t).filter (runAtBoot host t)).map fun w => row (containerAt host t w)

def cfgForName (g : Text) : Option Text := (scanned host t).find? fun w => nameOf host t w == g

def running (w : W) (cfg : Text) : Bool :=
  host.pid w cfg != "NONE".toList && !(host.pid w cfg).isEmpty

/-- `grep -qxF` in the names of the containers that were started. -/
def isListed (started : List Text) (g : Text) : Bool :=
  if g.head? == some '-' then host.grepOption g else started.contains g

def gatewayAvailable (w : W) (started : List Text) (g : Text) : Bool :=
  isListed host started g || (cfgForName host t g).any (running host w)

def noteStarted (w : W) (name cfg : Text) (started : List Text) : List Text :=
  if running host w cfg then started ++ [name] else started

/-- The files that `start` is run with. -/
def bootLoop (w : W) (started : List Text) : List Text → List Text
  | [] => []
  | line :: rest =>
    match read '\t' 4 line with
    | [_, name, netMode, gw, cfg] =>
      if cfg.isEmpty then bootLoop w started rest
      else
        let gateway := if gw == ['-'] then [] else gw
        if netMode == "gateway".toList && !gateway.isEmpty &&
            !gatewayAvailable host t w started gateway then
          bootLoop w started rest
        else
          let w' := host.start w cfg
          cfg :: bootLoop w' (noteStarted host w' name cfg started) rest
    | _ => bootLoop w started rest

def autoboot (w : W) : List Text := bootLoop host t w [] (sortBy sortKey (bootTable host t))

end Script

/-! ## What is right -/

/-- A container is a directory among the containers, with its `container.config`. -/
def isInstalled (t : Tree) (p : Path) : Bool :=
  p.dropLast.dropLast == containersDir && p.getLast? == some "container.config" && t.isFile p

namespace Container

variable (c : Container)

/-- Containers without a priority come last; then the name counts. -/
def rank : WithTop ℕ ×ₗ Text := toLex (readNumber c.priority, c.name)

/-- The container that has to be running. -/
def router : Option Text :=
  if c.netMode == "gateway".toList && !c.gateway.isEmpty then some c.gateway else none

end Container

section Right

variable {W : Type} (host : Host W) (t : Tree)

def installedContainers : List Container :=
  ((found t).filter (isInstalled t)).map fun p => containerAt host t (pathText p)

def wanted : List Container :=
  ((found t).filter fun p => isInstalled t p && runAtBoot host t (pathText p)).map
    fun p => containerAt host t (pathText p)

def routerRuns (w : W) (g : Text) : Bool :=
  (installedContainers host t).any fun c => c.name == g && running host w c.cfg

def isSkipped (w : W) (c : Container) : Bool := c.router.any (!routerRuns host t w ·)

/-- One container after the other, but for the ones whose router is not running. -/
def turns (w : W) : List Container → List Text
  | [] => []
  | c :: cs =>
    if isSkipped host t w c then turns w cs else c.cfg :: turns (host.start w c.cfg) cs

structure IsOrder (order : List Container) : Prop where
  perm : order.Perm (wanted host t)
  sorted : order.Pairwise fun c d => c.rank ≤ d.rank

def BootsRight (w : W) : Prop :=
  ∃ order, IsOrder host t order ∧ autoboot host t w = turns host t w order

/-! ## When it is so -/

/-- Each file that is found is taken for what it is: split and expanded, its path gives itself if
it is an installed container to be booted, and else nothing that could be booted. -/
def FoundRight : Prop :=
  ∀ p ∈ found t, ((words (pathText p)).flatMap host.expand).filter (runAtBoot host t) =
    if isInstalled t p && runAtBoot host t (pathText p) then [pathText p] else []

/-- There are no tabs in what becomes a column. -/
def ColumnsRight : Prop :=
  ∀ c ∈ wanted host t, '\t' ∉ c.name ∧ '\t' ∉ c.netMode ∧ '\t' ∉ c.gateway ∧ '\t' ∉ c.cfg

/-- No priority is as large as the one that stands for a missing one. -/
def RanksRight : Prop :=
  ∀ c ∈ wanted host t, ∀ d ∈ wanted host t, ∀ n ∈ readNumber c.priority,
    readNumber d.priority = none →
      (toLex (n, c.name) : ℕ ×ₗ Text) < toLex (99999999, d.name)

/-- The name of a router is no option and not the placeholder, and it is the name of the installed
container that `cfgForName` finds, if any. -/
def RoutersRight : Prop :=
  ∀ c ∈ wanted host t, ∀ g ∈ c.router, g ≠ ['-'] ∧
    (g.head? = some '-' → host.grepOption g = false) ∧
    ∀ cfg, cfgForName host t g = some cfg ↔
      ∃ d ∈ installedContainers host t, d.name = g ∧ d.cfg = cfg

/-- A router that was started is still running when it is needed. -/
def Steady (w : W) (started : List Text) : List Container → Prop
  | [] => True
  | c :: cs =>
    (∀ g ∈ c.router, g ∈ started → routerRuns host t w g = true) ∧
    if isSkipped host t w c then Steady w started cs
    else
      let w' := host.start w c.cfg
      Steady w' (noteStarted host w' c.name c.cfg started) cs

/-! ## The table -/

variable {host t} {c d : Container}

theorem readNumber_eq_some {x : Text} {n : ℕ} (h : readNumber x = some n) :
    x ≠ [] ∧ (∀ a ∈ x, a.isDigit = true) ∧ leadingNumber x = n := by
  unfold readNumber at h
  split at h
  · cases h
  · next hno =>
    simp only [Bool.or_eq_true, List.isEmpty_iff, List.any_eq_true, Bool.not_eq_true', not_or,
      not_exists, not_and, Bool.not_eq_false] at hno
    exact ⟨hno.1, hno.2, Option.some.inj h⟩

theorem leadingNumber_prioColumn (x : Text) :
    leadingNumber (prioColumn x) = (readNumber x).getD 99999999 := by
  unfold prioColumn
  cases h : readNumber x with
  | none => rfl
  | some n => simpa using (readNumber_eq_some h).2.2

theorem isColumn_prioColumn (x : Text) : IsColumn '\t' (prioColumn x) := by
  unfold prioColumn
  cases h : readNumber x with
  | none => exact (by decide : "99999999".toList ≠ [] ∧ '\t' ∉ "99999999".toList)
  | some n =>
    obtain ⟨hne, hdigits, -⟩ := readNumber_eq_some h
    exact ⟨hne, fun htab => absurd (hdigits _ htab) (by decide)⟩

theorem isColumn_orDash {x : Text} (h : '\t' ∉ x) : IsColumn '\t' (orDash x) := by
  unfold orDash
  split
  · exact ⟨by decide, by decide⟩
  · next hne => exact ⟨by simpa using hne, h⟩

theorem dirBasename_ne_nil (w : Text) : dirBasename w ≠ [] := by
  unfold dirBasename
  split
  · next c hc =>
    have hmem := List.mem_of_mem_dropLast (List.mem_of_getLast? hc)
    simpa using (List.mem_filter.1 hmem).2
  · split <;> decide

theorem nameOf_ne_nil (w : Text) : nameOf host t w ≠ [] := by
  rw [nameOf]
  split
  · exact dirBasename_ne_nil w
  · next hne => simpa using hne

theorem pathText_ne_nil {p : Path} (h : p ∈ found t) : pathText p ≠ [] := by
  cases p with
  | nil => simp [found] at h
  | cons c p => simp [pathText]

theorem columns_of_wanted (h : ColumnsRight host t) (hc : c ∈ wanted host t) :
    ∀ x ∈ columns c, IsColumn '\t' x := by
  obtain ⟨hname, hnet, hgw, hcfg⟩ := h c hc
  obtain ⟨p, hp, rfl⟩ := List.mem_map.1 hc
  have hpath := pathText_ne_nil (List.mem_filter.1 hp).1
  intro x hx
  simp only [columns, List.mem_cons, List.not_mem_nil, or_false] at hx
  rcases hx with rfl | rfl | rfl | rfl | rfl
  · exact isColumn_prioColumn _
  · exact ⟨nameOf_ne_nil _, hname⟩
  · exact isColumn_orDash hnet
  · exact isColumn_orDash hgw
  · exact ⟨hpath, hcfg⟩

theorem flatMap_ite_singleton {α β : Type} (P : α → Bool) (f : α → β) (l : List α) :
    (l.flatMap fun a => if P a then [f a] else []) = (l.filter P).map f := by
  induction l with
  | nil => rfl
  | cons a l ih =>
    cases ha : P a with
    | true => simp [ha, ih]
    | false => simp [ha, ih]

/-- The table has a row for each installed container to be booted, and no other. -/
theorem bootTable_eq (h : FoundRight host t) :
    bootTable host t = (wanted host t).map row := by
  have hscanned : (scanned host t).filter (runAtBoot host t) =
      ((found t).filter fun p => isInstalled t p && runAtBoot host t (pathText p)).map
        pathText := by
    have hlines := words_lines ((found t).map pathText)
    simp only [List.flatMap_map] at hlines
    rw [scanned, hlines, List.flatMap_assoc, List.filter_flatMap, ← flatMap_ite_singleton]
    exact List.flatMap_congr fun p hp => h p hp
  rw [bootTable, hscanned, wanted, List.map_map, List.map_map]
  rfl

/-! ## The order -/

theorem sortKey_row (h : ∀ x ∈ columns c, IsColumn '\t' x) :
    sortKey (row c) =
      toLex ((readNumber c.priority).getD 99999999, toLex (c.name, row c)) := by
  have hfields : (row c).splitOn '\t' = columns c :=
    List.splitOn_intercalate '\t' (fun x hx => (h x hx).2) (List.cons_ne_nil _ _)
  simp [sortKey, hfields, columns, leadingNumber_prioColumn]

theorem rank_le_of_sortKey_le (hranks : RanksRight host t) (hcolumns : ColumnsRight host t)
    (hc : c ∈ wanted host t) (hd : d ∈ wanted host t) (h : sortKey (row c) ≤ sortKey (row d)) :
    c.rank ≤ d.rank := by
  rw [sortKey_row (columns_of_wanted hcolumns hc), sortKey_row (columns_of_wanted hcolumns hd)] at h
  have hkey : (toLex ((readNumber c.priority).getD 99999999, c.name) : ℕ ×ₗ Text) ≤
      toLex ((readNumber d.priority).getD 99999999, d.name) := by
    rw [Prod.Lex.toLex_le_toLex] at h ⊢
    refine h.imp id fun ⟨heq, hle⟩ => ⟨heq, ?_⟩
    rcases (Prod.Lex.toLex_le_toLex).1 hle with hlt | ⟨hname, -⟩
    · exact hlt.le
    · exact hname.le
  unfold Container.rank
  cases hm : readNumber c.priority with
  | none =>
    cases hn : readNumber d.priority with
    | none =>
      rw [hm, hn, Prod.Lex.toLex_le_toLex] at hkey
      rw [Prod.Lex.toLex_le_toLex]
      rcases hkey with hlt | ⟨-, hname⟩
      · exact absurd hlt (lt_irrefl _)
      · exact Or.inr ⟨rfl, hname⟩
    | some n =>
      -- The largest priority that is expected is larger than that of `d`.
      rw [hm, hn] at hkey
      exact absurd hkey (hranks d hd c hc n hn hm).not_ge
  | some m =>
    cases hn : readNumber d.priority with
    | none => exact Prod.Lex.toLex_le_toLex.2 (Or.inl (WithTop.coe_lt_top m))
    | some n =>
      rw [hm, hn, Prod.Lex.toLex_le_toLex] at hkey
      rw [Prod.Lex.toLex_le_toLex]
      rcases hkey with hlt | ⟨heq, hname⟩
      · exact Or.inl (WithTop.coe_lt_coe.2 hlt)
      · exact Or.inr ⟨congrArg ((↑) : ℕ → WithTop ℕ) heq, hname⟩

theorem exists_order (hfound : FoundRight host t) (hcolumns : ColumnsRight host t)
    (hranks : RanksRight host t) :
    ∃ order, IsOrder host t order ∧ sortBy sortKey (bootTable host t) = order.map row := by
  obtain ⟨order, hperm, hsorted, hrows⟩ := sortBy_map sortKey row (wanted host t)
  refine ⟨order, ⟨hperm, ?_⟩, by rw [bootTable_eq hfound, hrows]⟩
  refine hsorted.imp_of_mem fun hc hd hle => ?_
  exact rank_le_of_sortKey_le hranks hcolumns (hperm.subset hc) (hperm.subset hd) hle

/-! ## The loop -/

theorem gatewayAvailable_eq {w : W} {started : List Text} {g : Text}
    (hoption : g.head? = some '-' → host.grepOption g = false)
    (hcfg : ∀ cfg, cfgForName host t g = some cfg ↔
      ∃ d ∈ installedContainers host t, d.name = g ∧ d.cfg = cfg)
    (hsteady : g ∈ started → routerRuns host t w g = true) :
    gatewayAvailable host t w started g = routerRuns host t w g := by
  rw [Bool.eq_iff_iff]
  constructor
  · intro h
    rcases Bool.or_eq_true_iff.1 h with hlisted | hruns
    · unfold isListed at hlisted
      split at hlisted
      · next hdash =>
        rw [hoption (beq_iff_eq.1 hdash)] at hlisted
        cases hlisted
      · exact hsteady (List.contains_iff_mem.1 hlisted)
    · cases hfind : cfgForName host t g with
      | none =>
        rw [hfind] at hruns
        cases hruns
      | some cfg =>
        rw [hfind] at hruns
        obtain ⟨d, hd, hname, rfl⟩ := (hcfg cfg).1 hfind
        refine List.any_eq_true.2 ⟨d, hd, ?_⟩
        rw [Bool.and_eq_true, beq_iff_eq]
        exact ⟨hname, hruns⟩
  · intro h
    obtain ⟨d, hd, hrun⟩ := List.any_eq_true.1 h
    rw [Bool.and_eq_true, beq_iff_eq] at hrun
    have hfind := (hcfg d.cfg).2 ⟨d, hd, hrun.1, rfl⟩
    simp [gatewayAvailable, hfind, hrun.2]

/-- The columns are what the script's test for a router needs. -/
theorem isSkipped_eq (hrouters : RoutersRight host t) (hc : c ∈ wanted host t) {w : W}
    {started : List Text}
    (hsteady : ∀ g ∈ c.router, g ∈ started → routerRuns host t w g = true) :
    (orDash c.netMode == "gateway".toList &&
      !(if orDash c.gateway == ['-'] then [] else orDash c.gateway).isEmpty &&
      !gatewayAvailable host t w started
        (if orDash c.gateway == ['-'] then [] else orDash c.gateway)) =
      isSkipped host t w c := by
  by_cases hnet : c.netMode = "gateway".toList
  · cases hgw : c.gateway with
    | nil => simp [isSkipped, Container.router, orDash, hgw]
    | cons a g =>
      have hrouter : c.router = some (a :: g) := by simp [Container.router, hnet, hgw]
      obtain ⟨hdash, hoption, hcfg⟩ := hrouters c hc (a :: g) hrouter
      have hcolumn : orDash (a :: g) = a :: g := rfl
      rw [hcolumn, if_neg (by simpa using hdash), gatewayAvailable_eq hoption hcfg
        (hsteady _ hrouter)]
      simp [isSkipped, hrouter, hnet, orDash]
  · have hcolumn : orDash c.netMode ≠ "gateway".toList := by
      unfold orDash
      split
      · decide
      · exact hnet
    rw [isSkipped, Container.router, beq_false_of_ne hnet, beq_false_of_ne hcolumn]
    rfl

theorem bootLoop_rows (hcolumns : ColumnsRight host t) (hrouters : RoutersRight host t)
    {order : List Container} (horder : ∀ c ∈ order, c ∈ wanted host t) {w : W}
    {started : List Text} (hsteady : Steady host t w started order) :
    bootLoop host t w started (order.map row) = turns host t w order := by
  induction order generalizing w started with
  | nil => rfl
  | cons c cs ih =>
    have hc := horder c List.mem_cons_self
    have hrest := fun d hd => horder d (List.mem_cons_of_mem _ hd)
    have hcolumn := columns_of_wanted hcolumns hc
    have hread : read '\t' 4 (row c) = columns c := read_intercalate hcolumn rfl
    have hcfg : c.cfg.isEmpty = false := by
      simpa using (hcolumn c.cfg (by simp [columns])).1
    obtain ⟨hrouter, hnext⟩ := hsteady
    rw [List.map_cons, bootLoop, hread]
    simp only [columns, hcfg, Bool.false_eq_true, if_false, isSkipped_eq hrouters hc hrouter]
    rw [turns]
    split
    · next hskip =>
      rw [if_pos hskip] at hnext
      exact ih hrest hnext
    · next hskip =>
      rw [if_neg hskip] at hnext
      rw [ih hrest hnext]

theorem mem_turns {order : List Container} {w : W} {cfg : Text} (h : cfg ∈ turns host t w order) :
    ∃ c ∈ order, c.cfg = cfg := by
  induction order generalizing w with
  | nil => cases h
  | cons c cs ih =>
    have hrest : ∀ {w}, cfg ∈ turns host t w cs → ∃ d ∈ c :: cs, d.cfg = cfg := fun hmem =>
      (ih hmem).imp fun d hd => ⟨List.mem_cons_of_mem _ hd.1, hd.2⟩
    rw [turns] at h
    split at h
    · exact hrest h
    · rcases List.mem_cons.1 h with rfl | hmem
      · exact ⟨c, List.mem_cons_self, rfl⟩
      · exact hrest hmem

/-- `start` is run with nothing but the configurations of installed containers. -/
theorem BootsRight.mem_wanted {w : W} {cfg : Text} (h : BootsRight host t w)
    (hcfg : cfg ∈ autoboot host t w) : ∃ c ∈ wanted host t, c.cfg = cfg := by
  obtain ⟨order, horder, heq⟩ := h
  obtain ⟨c, hc, rfl⟩ := mem_turns (heq ▸ hcfg)
  exact ⟨c, horder.perm.subset hc, rfl⟩

end Right

/-! ## A configuration inside a root file system -/

/-- A container runs from when it is started. -/
def obedient : Host (List Text) where
  elsewhere _ := none
  expand w := [w]
  grepOption _ := false
  start w cfg := cfg :: w
  pid w cfg := if w.contains cfg then "4242".toList else "NONE".toList

def configOf (dir : Path) (lines : String) : Path × Node Text :=
  (containersDir ++ dir ++ ["container.config"], .file lines.toList)

/-- A client of a router, with the file that its root file system holds. -/
def client (inside : String) : Tree := ⟨[
  configOf ["web", "rootfs", "opt"] inside,
  configOf ["web"] "run_at_boot=1\nrun_at_boot_priority=2\nnet_mode=gateway\ngateway_container=gw",
  configOf ["gw"] "name=gw\nnet_mode=nat\n"]⟩

def webConfig : Text := pathText (containersDir ++ ["web", "container.config"])

def gwConfig : Text := pathText (containersDir ++ ["gw", "container.config"])

end Droidspaces.Autoboot
