import Droidspaces.Config.Entries
import Mathlib.Data.List.Forall2

/-!
# The resolver lines

`ds_get_dns_servers` writes one line for each server that was asked for.  A line is put together in
128 bytes and then stored in what is left of the output, and either place may cut it:
`isWhole_dsGetDnsServers_iff` says exactly when neither does.
-/

namespace Droidspaces.Network

/-! ## The code -/

def isSeparator (c : Char) : Bool := c = ',' || c = ' '

/-- `strtok_r`, with the characters of the token that is being read. -/
def strtok : Text → Text → List Text
  | token, [] => if token = [] then [] else [token]
  | token, c :: text =>
    if isSeparator c then if token = [] then strtok [] text else token :: strtok [] text
    else strtok (token ++ [c]) text

def nameserver : Text := "nameserver ".toList

def serverLine (t : Text) : Text := nameserver ++ t ++ ['\n']

/-- What `snprintf` leaves in `line`. -/
def lineBuf (t : Text) : Text := (serverLine t).take 127

/-- The loop over the tokens. -/
def appendServers (size : ℕ) : Text → ℕ → List Text → Text × ℕ
  | out, count, [] => (out, count)
  | out, count, t :: ts =>
    if out.length < size - 32 then
      appendServers size (out ++ (lineBuf t).take (size - out.length - 1)) (count + 1) ts
    else (out, count)

def dnsDefault1 : Text := "1.1.1.1".toList

def dnsDefault2 : Text := "8.8.8.8".toList

/-- What `buf` holds of the text. -/
def dnsBuf (customDns : Text) : Text := customDns.take 1023

/-- `ds_get_dns_servers`: what is in `out`, and the count.  No text is like an empty one. -/
def dsGetDnsServers (size : ℕ) (customDns : Text) : Text × ℕ :=
  let written := appendServers size [] 0 (strtok [] (dnsBuf customDns))
  if written.2 = 0 then
    let text := serverLine dnsDefault1 ++ serverLine dnsDefault2
    (text.take (size - 1), if text.length < size then 2 else 0)
  else written

/-! ## What is meant -/

/-- The servers that are asked for, which are the two defaults if no other is named. -/
def servers (customDns : Text) : List Text :=
  if strtok [] customDns = [] then [dnsDefault1, dnsDefault2] else strtok [] customDns

/-- The output is whole lines, for the first of the servers, as many as the count says. -/
structure IsWhole (ts : List Text) (written : Text × ℕ) : Prop where
  count_le : written.2 ≤ ts.length
  text : written.1 = (ts.take written.2).flatMap serverLine
  lines : written.1.count '\n' = written.2

/-- Every line that is begun fits into the line buffer and into the output, where `off` characters
are in use, and is for the server that was asked for in its place. -/
def LinesFit (size : ℕ) : ℕ → List Text → List Text → Prop
  | _, [], _ => True
  | off, t :: ts, us =>
    off < size - 32 → us.head? = some t ∧ '\n' ∉ t ∧ t.length ≤ 115 ∧
      off + (serverLine t).length < size ∧ LinesFit size (off + (serverLine t).length) ts us.tail

/-! ## Lines -/

@[simp] theorem length_serverLine (t : Text) : (serverLine t).length = t.length + 12 := by
  have hword : nameserver.length = 11 := by decide
  rw [serverLine, List.length_append, List.length_append, hword, List.length_singleton]
  omega

theorem count_serverLine (t : Text) : (serverLine t).count '\n' = t.count '\n' + 1 := by
  rw [serverLine, List.count_append, List.count_append, List.count_singleton_self]
  have hword : nameserver.count '\n' = 0 := by decide
  omega

theorem count_flatMap_serverLine_eq_iff (ts : List Text) :
    (ts.flatMap serverLine).count '\n' = ts.length ↔ ∀ t ∈ ts, '\n' ∉ t := by
  have hle : ∀ us : List Text, us.length ≤ (us.flatMap serverLine).count '\n' := by
    intro us
    induction us with
    | nil => exact Nat.zero_le _
    | cons u us ih =>
      rw [List.flatMap_cons, List.count_append, count_serverLine, List.length_cons]
      omega
  induction ts with
  | nil => simp
  | cons t ts ih =>
    have htail := hle ts
    rw [List.flatMap_cons, List.count_append, count_serverLine, List.length_cons,
      List.forall_mem_cons, ← List.count_eq_zero]
    constructor
    · intro h
      exact ⟨by omega, ih.1 (by omega)⟩
    · rintro ⟨ht, hts⟩
      rw [ht, ih.2 hts]
      omega

theorem serverLine_append_inj {t u : Text} (ht : '\n' ∉ t) (hu : '\n' ∉ u) {rest rest' : Text}
    (h : serverLine t ++ rest = serverLine u ++ rest') : t = u ∧ rest = rest' := by
  have hline : t ++ '\n' :: rest = u ++ '\n' :: rest' := by
    simpa [serverLine] using h
  exact Config.append_cons_inj ht hu hline

theorem eq_of_flatten_eq {ps ls : List Text}
    (h : List.Forall₂ (fun p l => p.length ≤ l.length) ps ls) (heq : ps.flatten = ls.flatten) :
    ps = ls := by
  have hle : ∀ {qs ms : List Text}, List.Forall₂ (fun p l => p.length ≤ l.length) qs ms →
      qs.flatten.length ≤ ms.flatten.length := by
    intro qs ms hall
    induction hall with
    | nil => exact le_rfl
    | cons hlen _ ih =>
      rw [List.flatten_cons, List.flatten_cons, List.length_append, List.length_append]
      exact Nat.add_le_add hlen ih
  induction h with
  | nil => rfl
  | cons hlen htail ih =>
    rw [List.flatten_cons, List.flatten_cons] at heq
    have htotal := congrArg List.length heq
    rw [List.length_append, List.length_append] at htotal
    have hrest := hle htail
    obtain ⟨hhead, htails⟩ := List.append_inj heq (by omega)
    rw [hhead, ih htails]

/-! ## What the loop writes -/

/-- The pieces that are appended. -/
def pieces (size : ℕ) : ℕ → List Text → List Text
  | _, [] => []
  | off, t :: ts =>
    if off < size - 32 then
      (lineBuf t).take (size - off - 1) ::
        pieces size (off + ((lineBuf t).take (size - off - 1)).length) ts
    else []

theorem pieces_cons (size off : ℕ) (t : Text) (ts : List Text) :
    pieces size off (t :: ts) = if off < size - 32 then
      (lineBuf t).take (size - off - 1) ::
        pieces size (off + ((lineBuf t).take (size - off - 1)).length) ts
    else [] := rfl

theorem appendServers_eq_pieces (size : ℕ) (out : Text) (count : ℕ) (ts : List Text) :
    appendServers size out count ts =
      (out ++ (pieces size out.length ts).flatten, count + (pieces size out.length ts).length) := by
  induction ts generalizing out count with
  | nil => simp [appendServers, pieces]
  | cons t ts ih =>
    rw [appendServers, pieces_cons]
    split
    · rw [ih, List.length_append, List.flatten_cons, List.append_assoc, List.length_cons,
        Nat.add_assoc, Nat.add_comm 1]
    · simp

theorem forall₂_pieces {ts us : List Text} (h : List.Forall₂ (fun t u => t.length ≤ u.length) ts us)
    (size off : ℕ) : List.Forall₂ (fun p l => p.length ≤ l.length) (pieces size off ts)
      ((us.take (pieces size off ts).length).map serverLine) := by
  induction h generalizing off with
  | nil => exact .nil
  | @cons t u ts us hlen _ ih =>
    rw [pieces_cons]
    split
    · refine .cons ?_ (ih _)
      have hline := length_serverLine t
      have hline' := length_serverLine u
      simp only [lineBuf, List.length_take]
      omega
    · exact .nil

/-- **The pieces are the lines of the servers that were asked for exactly if they fit.** -/
theorem pieces_eq_iff {ts us : List Text} (h : List.Forall₂ (fun t u => t.length ≤ u.length) ts us)
    (rest : List Text) (size off : ℕ) :
    (pieces size off ts = ((us ++ rest).take (pieces size off ts).length).map serverLine ∧
      ∀ u ∈ (us ++ rest).take (pieces size off ts).length, '\n' ∉ u) ↔
        LinesFit size off ts (us ++ rest) := by
  induction h generalizing off with
  | nil => simp [pieces, LinesFit]
  | @cons t u ts us hlen _ ih =>
    rw [LinesFit, pieces_cons]
    split
    · next hoff =>
      have hline := length_serverLine t
      have hline' := length_serverLine u
      have hpiece : ((lineBuf t).take (size - off - 1)) = (serverLine t).take
          (min (size - off - 1) 127) := List.take_take
      rw [forall_prop_of_true hoff, List.length_cons, List.cons_append, List.take_succ_cons,
        List.map_cons, List.cons.injEq, List.forall_mem_cons, List.head?_cons, Option.some.injEq,
        List.tail_cons, hpiece]
      constructor
      · rintro ⟨⟨hhead, htail⟩, hu, hfree⟩
        have hcut := congrArg List.length hhead
        rw [List.length_take] at hcut
        have hwhole : (serverLine t).take (min (size - off - 1) 127) = serverLine t :=
          List.take_of_length_le (by omega)
        rw [hwhole] at hhead htail hfree
        have htu : t = u := by simpa [serverLine] using hhead
        exact ⟨htu.symm, htu ▸ hu, by omega, by omega, (ih _).1 ⟨htail, hfree⟩⟩
      · rintro ⟨htu, hfree, hshort, hroom, hfit⟩
        subst htu
        have hwhole : (serverLine u).take (min (size - off - 1) 127) = serverLine u :=
          List.take_of_length_le (by omega)
        rw [hwhole]
        exact ⟨⟨rfl, ((ih _).2 hfit).1⟩, hfree, ((ih _).2 hfit).2⟩
    · next hoff => simp [hoff]

/-! ## Tokens -/

theorem strtok_cons (token : Text) (c : Char) (text : Text) :
    strtok token (c :: text) =
      if isSeparator c then if token = [] then strtok [] text else token :: strtok [] text
      else strtok (token ++ [c]) text := rfl

theorem strtok_eq_cons {token : Text} (h : token ≠ []) (text : Text) :
    ∃ u us, strtok token text = u :: us ∧ token.length ≤ u.length := by
  induction text generalizing token with
  | nil =>
    obtain ⟨c, token', rfl⟩ := List.exists_cons_of_ne_nil h
    exact ⟨c :: token', [], rfl, le_rfl⟩
  | cons c text ih =>
    rw [strtok_cons, if_neg h]
    split
    · exact ⟨token, _, rfl, le_rfl⟩
    · obtain ⟨u, us, htext, hle⟩ := ih (List.append_ne_nil_of_right_ne_nil token (List.cons_ne_nil c []))
      refine ⟨u, us, htext, ?_⟩
      rw [List.length_append] at hle
      omega

/-- The tokens of the first characters are the first tokens, of which the last may be cut. -/
theorem strtok_take (k : ℕ) (token text : Text) : ∃ us rest, strtok token text = us ++ rest ∧
    List.Forall₂ (fun t u => t.length ≤ u.length) (strtok token (text.take k)) us := by
  induction text generalizing k token with
  | nil =>
    rw [List.take_nil]
    exact ⟨_, [], (List.append_nil _).symm, List.forall₂_refl _⟩
  | cons c text ih =>
    cases k with
    | zero =>
      rw [List.take_zero]
      cases token with
      | nil => exact ⟨[], _, rfl, .nil⟩
      | cons d token =>
        obtain ⟨u, us, htext, hle⟩ := strtok_eq_cons (List.cons_ne_nil d token) (c :: text)
        exact ⟨[u], us, htext, .cons hle .nil⟩
    | succ k =>
      rw [List.take_succ_cons, strtok_cons, strtok_cons]
      split
      · obtain ⟨us, rest, htext, hall⟩ := ih k []
        split
        · exact ⟨us, rest, htext, hall⟩
        · exact ⟨token :: us, rest, by rw [htext, List.cons_append], .cons le_rfl hall⟩
      · exact ih k (token ++ [c])

/-! ## The output -/

/-- The defaults fit into any output. -/
theorem linesFit_defaults_iff {size : ℕ} (h : 64 ≤ size) (us : List Text) :
    LinesFit size 0 [dnsDefault1, dnsDefault2] us ↔ us.take 2 = [dnsDefault1, dnsDefault2] := by
  have hlen1 : (serverLine dnsDefault1).length = 19 := by decide
  have hlen2 : (serverLine dnsDefault2).length = 19 := by decide
  have hfree1 : '\n' ∉ dnsDefault1 := by decide
  have hfree2 : '\n' ∉ dnsDefault2 := by decide
  have hshort1 : dnsDefault1.length ≤ 115 := by decide
  have hshort2 : dnsDefault2.length ≤ 115 := by decide
  rw [LinesFit, LinesFit, LinesFit, hlen1, hlen2, forall_prop_of_true (by omega : 0 < size - 32),
    forall_prop_of_true (by omega : 0 + 19 < size - 32)]
  match us with
  | [] => simp
  | [u] => simp
  | u₁ :: u₂ :: us =>
    simp only [List.head?_cons, List.tail_cons, Option.some.injEq, List.take_succ_cons,
      List.take_zero, List.cons.injEq, and_true]
    constructor
    · exact fun hfit => ⟨hfit.1, hfit.2.2.2.2.1⟩
    · exact fun heq => ⟨heq.1, hfree1, hshort1, by omega, heq.2, hfree2, hshort2, by omega⟩

theorem pieces_defaults {size : ℕ} (h : 64 ≤ size) :
    pieces size 0 [dnsDefault1, dnsDefault2] = [serverLine dnsDefault1, serverLine dnsDefault2] := by
  have hlen1 : (serverLine dnsDefault1).length = 19 := by decide
  have hfit := (linesFit_defaults_iff h [dnsDefault1, dnsDefault2]).2 rfl
  have hwhole := ((pieces_eq_iff (List.forall₂_refl _) [] size 0).2 hfit).1
  have hlen : (pieces size 0 [dnsDefault1, dnsDefault2]).length = 2 := by
    rw [pieces_cons, if_pos (by omega), pieces_cons, if_pos]
    · rfl
    · simp only [lineBuf, List.length_take, hlen1]
      omega
  rw [hwhole, hlen]
  rfl

/-- The defaults are written as if they had been asked for. -/
theorem dsGetDnsServers_eq {size : ℕ} (h : 64 ≤ size) (customDns : Text) :
    dsGetDnsServers size customDns =
      ((pieces size 0 (servers (dnsBuf customDns))).flatten,
        (pieces size 0 (servers (dnsBuf customDns))).length) := by
  have hloop := appendServers_eq_pieces size [] 0
  simp only [List.nil_append, List.length_nil, Nat.zero_add] at hloop
  rw [dsGetDnsServers, hloop, servers]
  dsimp only
  cases htokens : strtok [] (dnsBuf customDns) with
  | nil =>
    have hlen : (serverLine dnsDefault1 ++ serverLine dnsDefault2).length = 38 := by decide
    have hnone : (pieces size 0 []).length = 0 := rfl
    rw [if_pos hnone, if_pos rfl, pieces_defaults h, hlen, if_pos (by omega),
      List.take_of_length_le (by omega)]
    simp
  | cons t ts =>
    rw [if_neg (List.cons_ne_nil t ts), if_neg]
    rw [pieces_cons, if_pos (by omega)]
    exact Nat.succ_ne_zero _

theorem isWhole_pieces_iff {ts us : List Text}
    (h : List.Forall₂ (fun t u => t.length ≤ u.length) ts us) (rest : List Text) (size : ℕ) :
    IsWhole (us ++ rest) ((pieces size 0 ts).flatten, (pieces size 0 ts).length) ↔
      LinesFit size 0 ts (us ++ rest) := by
  have hpieces := forall₂_pieces h size 0
  have hcount : (pieces size 0 ts).length ≤ us.length := by
    have hlen := hpieces.length_eq
    rw [List.length_map, List.length_take] at hlen
    omega
  have htake : (us ++ rest).take (pieces size 0 ts).length = us.take (pieces size 0 ts).length :=
    List.take_append_of_le_length hcount
  have hlines := count_flatMap_serverLine_eq_iff (us.take (pieces size 0 ts).length)
  rw [List.length_take, Nat.min_eq_left hcount] at hlines
  rw [← pieces_eq_iff h rest, htake, ← hlines]
  constructor
  · rintro ⟨-, htext, hnewlines⟩
    dsimp only at htext hnewlines
    rw [htake] at htext
    rw [← htext]
    exact ⟨eq_of_flatten_eq hpieces (htext.trans List.flatMap_def), hnewlines⟩
  · rintro ⟨heq, hnewlines⟩
    have htext : (pieces size 0 ts).flatten =
        (us.take (pieces size 0 ts).length).flatMap serverLine := by
      conv_lhs => rw [heq]
      rw [List.flatMap_def]
    refine ⟨?_, ?_, ?_⟩
    · rw [List.length_append]
      exact Nat.le_add_right_of_le hcount
    · rw [htake]
      exact htext
    · dsimp only
      rw [htext]
      exact hnewlines

/-- The defaults stand for what was asked for only if they are what was asked for. -/
theorem isWhole_defaults_iff {us : List Text} {size : ℕ} (h : 64 ≤ size) :
    IsWhole us ((pieces size 0 [dnsDefault1, dnsDefault2]).flatten,
      (pieces size 0 [dnsDefault1, dnsDefault2]).length) ↔
      LinesFit size 0 [dnsDefault1, dnsDefault2] us := by
  constructor
  · rintro ⟨hcount, htext, hnewlines⟩
    rw [linesFit_defaults_iff h]
    rw [pieces_defaults h] at hcount htext hnewlines
    match us, hcount with
    | u₁ :: u₂ :: us, _ =>
      have hus : ∀ u ∈ [u₁, u₂], '\n' ∉ u :=
        (count_flatMap_serverLine_eq_iff _).1 (htext ▸ hnewlines)
      have hjoin : serverLine dnsDefault1 ++ (serverLine dnsDefault2 ++ []) =
          serverLine u₁ ++ (serverLine u₂ ++ []) := htext
      obtain ⟨rfl, hrest⟩ := serverLine_append_inj (by decide) (hus u₁ (by simp)) hjoin
      obtain ⟨rfl, -⟩ := serverLine_append_inj (by decide) (hus u₂ (by simp)) hrest
      rfl
  · intro hfit
    have htake := (linesFit_defaults_iff h us).1 hfit
    have hwhole := isWhole_pieces_iff (List.forall₂_refl [dnsDefault1, dnsDefault2]) (us.drop 2) size
    rw [← htake, List.take_append_drop, htake] at hwhole
    exact hwhole.2 hfit

/-- **The lines are whole exactly if every line that is begun fits.** -/
theorem isWhole_dsGetDnsServers_iff {size : ℕ} (h : 64 ≤ size) (customDns : Text) :
    IsWhole (servers customDns) (dsGetDnsServers size customDns) ↔
      LinesFit size 0 (servers (dnsBuf customDns)) (servers customDns) := by
  rw [dsGetDnsServers_eq h]
  by_cases hnone : strtok [] (dnsBuf customDns) = []
  · have hdefaults : servers (dnsBuf customDns) = [dnsDefault1, dnsDefault2] := if_pos hnone
    rw [hdefaults]
    exact isWhole_defaults_iff h
  · obtain ⟨us, rest, htext, hall⟩ := strtok_take 1023 [] customDns
    have hsome : us ++ rest ≠ [] := fun hnil => by
      rw [(List.append_eq_nil_iff.1 hnil).1] at hall
      exact hnone (List.forall₂_nil_right_iff.1 hall)
    have hservers : servers customDns = us ++ rest := by
      rw [servers, htext, if_neg hsome]
    have hread : servers (dnsBuf customDns) = strtok [] (customDns.take 1023) := if_neg hnone
    rw [hservers, hread]
    exact isWhole_pieces_iff hall rest size

theorem isWhole_twoServers :
    IsWhole (servers "9.9.9.9, 149.112.112.112".toList)
      (dsGetDnsServers 64 "9.9.9.9, 149.112.112.112".toList) := by
  have hservers : servers "9.9.9.9, 149.112.112.112".toList =
      ["9.9.9.9".toList, "149.112.112.112".toList] := by decide
  rw [isWhole_dsGetDnsServers_iff (by decide)]
  rw [show dnsBuf "9.9.9.9, 149.112.112.112".toList = "9.9.9.9, 149.112.112.112".toList from rfl,
    hservers]
  refine fun _ => ⟨rfl, by decide, by decide, by decide, fun _ => ?_⟩
  exact ⟨rfl, by decide, by decide, by decide, trivial⟩

/-- Fifty-two short addresses leave room for a part of a long one. -/
def manyServers : Text :=
  (List.replicate 52 "1.1.1.1,".toList).flatten ++ "2001:0db8:85a3:0000:0000:8a2e:0370:7334".toList

theorem not_isWhole_manyServers : ¬ ∀ (size : ℕ) (customDns : Text), 64 ≤ size →
    IsWhole (servers customDns) (dsGetDnsServers size customDns) := by
  intro h
  have hlines := (h 1024 manyServers (by decide)).lines
  have hdiffers : ¬ (dsGetDnsServers 1024 manyServers).1.count '\n' =
      (dsGetDnsServers 1024 manyServers).2 := by decide +kernel
  exact hdiffers hlines

end Droidspaces.Network
