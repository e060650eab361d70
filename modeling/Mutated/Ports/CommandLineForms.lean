import Mutated.Ports.Admission

/-!
# Command lines in plain form

`getopt` leaves much freedom: options may share an argument, the argument of an
option may be joined to it, and fixed arguments may stand between options.  In
the plain form every option stands by itself, its argument is the next one, and
the fixed arguments follow behind a `--`.

## Main results

`parse_written`: a command line and its plain form are parsed alike, and the
plain form keeps exactly the options that `getopt` can return.
-/

namespace Mutated.Ports

/-! ## The plain form -/

section Model

variable (flags valued : List Char)

/-- An option by itself. -/
def writtenOpt (o : Opt) : List (List Char) :=
  if o.1 ∈ valued then [['-', o.1], o.2] else [['-', o.1]]

/-- The plain form of a command line. -/
def writtenArgs (opts : List Opt) (fixed : List (List Char)) :
    List (List Char) :=
  opts.flatMap (writtenOpt valued) ++ ['-', '-'] :: fixed

/-- An option that `getopt` can return: one with an argument, one without, or
one that is wrong. -/
inductive Returned : Opt → Prop
  | valued {c : Char} (arg : List Char) (hc : c ∈ valued) : Returned (c, arg)
  | flag {c : Char} (hc : c ∉ valued) (hflag : c ∈ flags) : Returned (c, [])
  | bad : Returned badOpt

/-- No option is a `-`, which ends the options, or a `?`, which stands for a
wrong one. -/
structure Letters : Prop where
  dash : '-' ∉ flags ∧ '-' ∉ valued
  bad : '?' ∉ valued

end Model

variable {flags valued : List Char}

/-! ## What `getopt` makes of one argument -/

theorem getopt_option {c : Char} {cs : List Char}
    (hdash : ¬ (c = '-' ∧ cs = [])) (args : List (List Char)) :
    getopt flags valued none (('-' :: c :: cs) :: args) =
      ((cluster flags valued (c :: cs)).1 ++
          (getopt flags valued (cluster flags valued (c :: cs)).2 args).1,
        (getopt flags valued (cluster flags valued (c :: cs)).2 args).2) := by
  rw [getopt]
  exact fun hc hcs => hdash ⟨hc, hcs⟩

/-- An argument that is no option is a fixed one. -/
theorem getopt_fixed {arg : List Char} (harg : ∀ c cs, arg ≠ '-' :: c :: cs)
    (args : List (List Char)) :
    getopt flags valued none (arg :: args) =
      ((getopt flags valued none args).1,
        arg :: (getopt flags valued none args).2) := by
  rw [getopt]
  · intro h
    exact harg _ _ h
  · intro c cs h
    exact harg c cs h

theorem getopt_waits (c : Char) (arg : List Char) (args : List (List Char)) :
    getopt flags valued (some c) (arg :: args) =
      ((c, arg) :: (getopt flags valued none args).1,
        (getopt flags valued none args).2) := by
  rw [getopt]

/-- **An option by itself** is returned as it is. -/
theorem getopt_writtenOpt (h : Letters flags valued) {o : Opt}
    (ho : Returned flags valued o) (args : List (List Char)) :
    getopt flags valued none (writtenOpt valued o ++ args) =
      (o :: (getopt flags valued none args).1,
        (getopt flags valued none args).2) := by
  cases ho with
  | @valued c arg hc =>
      have hdash : c ≠ '-' := fun heq => h.dash.2 (heq ▸ hc)
      have hcluster : cluster flags valued [c] = ([], some c) := by
        rw [cluster, if_pos hc]
        rfl
      rw [writtenOpt, if_pos hc, List.cons_append, List.cons_append,
        List.nil_append, getopt_option fun h => hdash h.1, hcluster,
        getopt_waits]
      rfl
  | @flag c hc hflag =>
      have hdash : c ≠ '-' := fun heq => h.dash.1 (heq ▸ hflag)
      have hcluster : cluster flags valued [c] = ([(c, [])], none) := by
        rw [cluster, if_neg hc]
        simp [cluster, hflag]
      rw [writtenOpt, if_neg hc, List.cons_append, List.nil_append,
        getopt_option fun h => hdash h.1, hcluster]
      rfl
  | bad =>
      have hcluster : cluster flags valued ['?'] = ([badOpt], none) := by
        rw [cluster, if_neg h.bad]
        by_cases hflag : '?' ∈ flags
        · simp [cluster, hflag, badOpt]
        · simp [cluster, hflag]
      rw [writtenOpt, badOpt, if_neg h.bad, List.cons_append, List.nil_append,
        getopt_option (by decide), hcluster]
      rfl

/-- **The plain form is read back.** -/
theorem getopt_written (h : Letters flags valued) {opts : List Opt}
    (hopts : ∀ o ∈ opts, Returned flags valued o) (fixed : List (List Char)) :
    getopt flags valued none (writtenArgs valued opts fixed) =
      (opts, fixed) := by
  induction opts with
  | nil => rfl
  | cons o opts ih =>
      obtain ⟨ho, hrest⟩ := List.forall_mem_cons.mp hopts
      have hread := ih hrest
      rw [writtenArgs] at hread ⊢
      rw [List.flatMap_cons, List.append_assoc, getopt_writtenOpt h ho, hread]

/-! ## What `getopt` returns -/

theorem cluster_returned (cs : List Char) :
    (∀ o ∈ (cluster flags valued cs).1, Returned flags valued o) ∧
      ∀ c ∈ (cluster flags valued cs).2, c ∈ valued := by
  induction cs with
  | nil => exact ⟨nofun, nofun⟩
  | cons c cs ih =>
      rw [cluster]
      by_cases hc : c ∈ valued
      · rw [if_pos hc]
        cases cs with
        | nil => exact ⟨nofun, fun c' h => by cases h; exact hc⟩
        | cons c' cs =>
            exact ⟨fun o ho => by
              rw [List.mem_singleton.mp ho]
              exact .valued _ hc, nofun⟩
      · rw [if_neg hc]
        refine ⟨List.forall_mem_cons.mpr ⟨?_, ih.1⟩, ih.2⟩
        split
        · next hflag => exact .flag hc hflag
        · exact .bad

/-- **Every option** that is returned, by induction on the arguments. -/
theorem getopt_returned (args : List (List Char)) : ∀ waits : Option Char,
    (∀ c ∈ waits, c ∈ valued) →
    ∀ o ∈ (getopt flags valued waits args).1, Returned flags valued o := by
  induction args with
  | nil =>
      intro waits hwaits
      cases waits with
      | none => exact nofun
      | some c =>
          intro o ho
          rw [List.mem_singleton.mp ho]
          exact .bad
  | cons arg args ih =>
      intro waits hwaits
      cases waits with
      | some c =>
          rw [getopt_waits]
          exact List.forall_mem_cons.mpr
            ⟨.valued arg (hwaits c rfl), ih none nofun⟩
      | none =>
          by_cases hopt : ∃ c cs, arg = '-' :: c :: cs
          · obtain ⟨c, cs, rfl⟩ := hopt
            by_cases hdash : c = '-' ∧ cs = []
            · obtain ⟨rfl, rfl⟩ := hdash
              exact nofun
            · obtain ⟨hopts, hwaits'⟩ :=
                @cluster_returned flags valued (c :: cs)
              rw [getopt_option hdash]
              exact List.forall_mem_append.mpr ⟨hopts, ih _ hwaits'⟩
          · rw [getopt_fixed fun c cs heq => hopt ⟨c, cs, heq⟩]
            exact ih none nofun

/-! ## The two programs -/

/-- The options without an argument. -/
def flagsOf : Protocol → List Char
  | .synthetic => "hrebz".toList
  | .memcache => "hreb".toList

/-- The options with an argument. -/
def valuedOf : Protocol → List Char
  | .synthetic => "iwscWlmdn".toList
  | .memcache => "iwscWlmdnzkvu".toList

theorem scanArgs_eq (p : Protocol) (argv : List (List Char)) :
    scanArgs p argv = getopt (flagsOf p) (valuedOf p) none argv := by
  cases p <;> rfl

theorem letters (p : Protocol) : Letters (flagsOf p) (valuedOf p) := by
  cases p <;> exact ⟨by decide, by decide⟩

/-- The plain form for a program. -/
def written (p : Protocol) (scanned : List Opt × List (List Char)) :
    List (List Char) := writtenArgs (valuedOf p) scanned.1 scanned.2

/-- A parser looks at the options in their order and at the fixed arguments. -/
theorem parseArgv_congr {p : Protocol} {argv argv' : List (List Char)}
    (h : scanArgs p argv = scanArgs p argv') :
    parseArgv p argv = parseArgv p argv' := by
  cases p with
  | synthetic =>
      show parseSynthetic argv = parseSynthetic argv'
      rw [parseSynthetic, parseSynthetic]
      rw [show getopt "hrebz".toList "iwscWlmdn".toList none argv =
        getopt "hrebz".toList "iwscWlmdn".toList none argv' from h]
  | memcache =>
      show parseMemcache argv = parseMemcache argv'
      rw [parseMemcache, parseMemcache]
      rw [show getopt "hreb".toList "iwscWlmdnzkvu".toList none argv =
        getopt "hreb".toList "iwscWlmdnzkvu".toList none argv' from h]

theorem scanArgs_returned (p : Protocol) (argv : List (List Char)) :
    ∀ o ∈ (scanArgs p argv).1, Returned (flagsOf p) (valuedOf p) o := by
  rw [scanArgs_eq]
  exact getopt_returned argv none nofun

theorem scanArgs_written (p : Protocol) (opts : List Opt)
    (fixed : List (List Char)) :
    scanArgs p (written p (opts, fixed)) = (opts, fixed) ↔
      ∀ o ∈ opts, Returned (flagsOf p) (valuedOf p) o := by
  rw [scanArgs_eq]
  constructor
  · intro hread
    have hreturned := scanArgs_returned p (written p (opts, fixed))
    rw [scanArgs_eq, hread] at hreturned
    exact hreturned
  · exact fun hopts => getopt_written (letters p) hopts fixed

/-- **The plain form** of any command line is parsed as the command line is;
and of any options and fixed arguments it keeps those that `getopt` can
return. -/
theorem parse_written (p : Protocol) :
    (∀ argv, parseArgv p (written p (scanArgs p argv)) = parseArgv p argv) ∧
      ∀ opts fixed, scanArgs p (written p (opts, fixed)) = (opts, fixed) ↔
        ∀ o ∈ opts, Returned (flagsOf p) (valuedOf p) o := by
  refine ⟨fun argv => parseArgv_congr ?_, scanArgs_written p⟩
  exact (scanArgs_written p _ _).mpr (scanArgs_returned p argv)

end Mutated.Ports
