import MethodRoles.Proofs.Command.Reading

/-!
# Which configuration is found

A configuration is looked for in a directory and in its successive parents, ten directories in all.
It is the first valid one that is taken: a malformed file is passed over as if it were not there. So
the nearest file decides, unless it is malformed and a valid one further up says something else than
the default.
-/
namespace MethodRoles

namespace Path

/-- The directory `n` steps up from a path. -/
def above? : Nat → Path → Option Path
  | 0, p => some p
  | n + 1, p => p.parent?.bind (above? n)

/-- `d` is the first with a property among a path and its successive parents, `limit` paths in
all. -/
def IsFirst (p : Path) (limit : Nat) (P : Path → Prop) (d : Path) : Prop :=
  ∃ n < limit, p.above? n = some d ∧ P d ∧ ∀ k < n, ∀ e, p.above? k = some e → ¬ P e

/-- None of a path and its successive parents has a property, `limit` paths in all. -/
def NoneOf (p : Path) (limit : Nat) (P : Path → Prop) : Prop :=
  ∀ n < limit, ∀ d, p.above? n = some d → ¬ P d

variable {α : Type} {p d e : Path} {limit : Nat} {P Q : Path → Prop}

/-- The first one is the path itself, or it is the first from the parent on. -/
theorem isFirst_succ :
    p.IsFirst (limit + 1) P d ↔
      (P p ∧ d = p) ∨ (¬ P p ∧ ∃ parent, p.parent? = some parent ∧ parent.IsFirst limit P d) := by
  constructor
  · rintro ⟨n, hn, hd, hP, hbefore⟩
    cases n with
    | zero =>
      obtain rfl : p = d := Option.some.inj hd
      exact .inl ⟨hP, rfl⟩
    | succ n =>
      obtain ⟨parent, hparent, hd⟩ := Option.bind_eq_some_iff.1 hd
      refine .inr ⟨hbefore 0 n.succ_pos p rfl, parent, hparent, n, Nat.lt_of_succ_lt_succ hn, hd,
        hP, ?_⟩
      intro k hk e he
      exact hbefore (k + 1) (Nat.succ_lt_succ hk) e (by rw [above?, hparent]; exact he)
  · rintro (⟨hP, rfl⟩ | ⟨hp, parent, hparent, n, hn, hd, hP, hbefore⟩)
    · exact ⟨0, limit.succ_pos, rfl, hP, fun k hk => absurd hk k.not_lt_zero⟩
    · refine ⟨n + 1, Nat.succ_lt_succ hn, by rw [above?, hparent]; exact hd, hP, ?_⟩
      intro k hk e he
      cases k with
      | zero =>
        obtain rfl : p = e := Option.some.inj he
        exact hp
      | succ k =>
        rw [above?, hparent] at he
        exact hbefore k (Nat.lt_of_succ_lt_succ hk) e he

theorem noneOf_succ :
    p.NoneOf (limit + 1) P ↔ ¬ P p ∧ ∀ parent, p.parent? = some parent → parent.NoneOf limit P := by
  constructor
  · intro h
    refine ⟨h 0 limit.succ_pos p rfl, fun parent hparent n hn d hd => ?_⟩
    exact h (n + 1) (Nat.succ_lt_succ hn) d (by rw [above?, hparent]; exact hd)
  · rintro ⟨hp, hparents⟩ n hn d hd
    cases n with
    | zero =>
      obtain rfl : p = d := Option.some.inj hd
      exact hp
    | succ n =>
      obtain ⟨parent, hparent, hd⟩ := Option.bind_eq_some_iff.1 hd
      exact hparents parent hparent n (Nat.lt_of_succ_lt_succ hn) d hd

theorem IsFirst.unique (hd : p.IsFirst limit P d) (he : p.IsFirst limit P e) : d = e := by
  obtain ⟨n, -, hdn, hPd, hn⟩ := hd
  obtain ⟨k, -, hek, hPe, hk⟩ := he
  rcases Nat.lt_trichotomy n k with hlt | rfl | hlt
  · exact absurd hPd (hk n hlt d hdn)
  · exact Option.some.inj (hdn.symm.trans hek)
  · exact absurd hPe (hn k hlt e hek)

theorem IsFirst.not_noneOf (h : p.IsFirst limit P d) : ¬ p.NoneOf limit P := by
  obtain ⟨n, hn, hd, hP, -⟩ := h
  exact fun hnone => hnone n hn d hd hP

/-- What is first with a property is first with a stronger one if it has that one too. -/
theorem IsFirst.strengthen (h : p.IsFirst limit P d) (hQ : Q d) (hPQ : ∀ e, Q e → P e) :
    p.IsFirst limit Q d := by
  obtain ⟨n, hn, hd, -, hbefore⟩ := h
  exact ⟨n, hn, hd, hQ, fun k hk e he hq => hbefore k hk e he (hPQ e hq)⟩

theorem isFirst_or_noneOf (p : Path) (limit : Nat) (P : Path → Prop) :
    (∃ d, p.IsFirst limit P d) ∨ p.NoneOf limit P := by
  induction limit generalizing p with
  | zero => exact .inr fun n hn => absurd hn n.not_lt_zero
  | succ limit ih =>
    by_cases hp : P p
    · exact .inl ⟨p, isFirst_succ.2 (.inl ⟨hp, rfl⟩)⟩
    cases hparent : p.parent? with
    | none => exact .inr (noneOf_succ.2 ⟨hp, by simp [hparent]⟩)
    | some parent =>
      rcases ih parent with ⟨d, hd⟩ | hnone
      · exact .inl ⟨d, isFirst_succ.2 (.inr ⟨hp, parent, hparent, hd⟩)⟩
      · refine .inr (noneOf_succ.2 ⟨hp, fun q hq => ?_⟩)
        cases hparent.symm.trans hq
        exact hnone

/-- The search for a value ends at the first path that has one. -/
theorem findSome?_ancestors_of_isFirst {f : Path → Option α}
    (h : p.IsFirst limit (fun e => ∃ a, f e = some a) d) :
    (p.ancestors limit).findSome? f = f d := by
  induction limit generalizing p with
  | zero =>
    obtain ⟨n, hn, -⟩ := h
    exact absurd hn n.not_lt_zero
  | succ limit ih =>
    rw [ancestors, List.findSome?_cons]
    rcases isFirst_succ.1 h with ⟨⟨a, ha⟩, rfl⟩ | ⟨hp, parent, hparent, hd⟩
    · rw [ha]
    · rw [Option.eq_none_iff_forall_ne_some.2 fun a ha => hp ⟨a, ha⟩, hparent]
      exact ih hd

theorem findSome?_ancestors_of_noneOf {f : Path → Option α}
    (h : p.NoneOf limit fun e => ∃ a, f e = some a) : (p.ancestors limit).findSome? f = none := by
  induction limit generalizing p with
  | zero => rfl
  | succ limit ih =>
    obtain ⟨hp, hparents⟩ := noneOf_succ.1 h
    rw [ancestors, List.findSome?_cons, Option.eq_none_iff_forall_ne_some.2 fun a ha => hp ⟨a, ha⟩]
    cases hparent : p.parent? with
    | none => rfl
    | some parent => exact ih (hparents parent hparent)

end Path

namespace Machine

/-- There is a text in the place of the configuration file of a directory. -/
def HasConfigFile (m : Machine) (directory : Path) : Prop :=
  ∃ text, m.readText? (directory.join Config.fileName) = some text

def HasValidConfig (m : Machine) (directory : Path) : Prop := ∃ c, m.configIn? directory = some c

theorem HasValidConfig.hasConfigFile {m : Machine} {directory : Path}
    (h : m.HasValidConfig directory) :
    m.HasConfigFile directory := by
  obtain ⟨c, hc⟩ := h
  obtain ⟨text, htext, -⟩ := Option.bind_eq_some_iff.1 hc
  exact ⟨text, htext⟩

/-- The first directory with a property decides on the configuration. It is the one in that
directory, or the default if there is no valid one in it or no such directory in reach. -/
def DecidedBy (m : Machine) (start : Path) (P : Path → Prop) (c : Config) : Prop :=
  (∃ d, start.IsFirst 10 P d ∧ c = (m.configIn? d).getD {}) ∨ (start.NoneOf 10 P ∧ c = {})

theorem run_discover (m : Machine) (start : Path) :
    ∃ c, (Config.discover start : StateM Machine Config).run m = (c, m) ∧
      m.DecidedBy start m.HasValidConfig c := by
  refine ⟨_, m.run_firstIn _, ?_⟩
  rcases start.isFirst_or_noneOf Config.searchLimit m.HasValidConfig with ⟨d, hd⟩ | hnone
  · exact .inl ⟨d, hd, by rw [Path.findSome?_ancestors_of_isFirst hd]⟩
  · exact .inr ⟨hnone, by rw [Path.findSome?_ancestors_of_noneOf hnone]; rfl⟩

variable {m : Machine} {start near : Path} {P : Path → Prop} {c : Config}

theorem decidedBy_of_isFirst (h : start.IsFirst 10 P near) :
    m.DecidedBy start P c ↔ c = (m.configIn? near).getD {} := by
  constructor
  · rintro (⟨d, hd, hc⟩ | ⟨hnone, -⟩)
    · rwa [h.unique hd]
    · exact absurd hnone h.not_noneOf
  · exact fun hc => .inl ⟨near, h, hc⟩

theorem decidedBy_of_noneOf (h : start.NoneOf 10 P) : m.DecidedBy start P c ↔ c = {} := by
  constructor
  · rintro (⟨d, hd, -⟩ | ⟨-, hc⟩)
    · exact absurd h hd.not_noneOf
    · exact hc
  · exact fun hc => .inr ⟨h, hc⟩

/-- A malformed file nearest by does no harm exactly if the default is found. -/
theorem decidedBy_hasConfigFile_iff (h : m.DecidedBy start m.HasValidConfig c) :
    m.DecidedBy start m.HasConfigFile c ↔
      ∀ d, start.IsFirst 10 m.HasConfigFile d → m.configIn? d = none → c = {} := by
  rcases start.isFirst_or_noneOf 10 m.HasConfigFile with ⟨near, hnear⟩ | hnone
  · have hexcept : (∀ d, start.IsFirst 10 m.HasConfigFile d → m.configIn? d = none → c = {}) ↔
        (m.configIn? near = none → c = {}) := by
      constructor
      · exact fun hall => hall near hnear
      · intro hmalformed d hd
        rw [hd.unique hnear]
        exact hmalformed
    rw [decidedBy_of_isFirst hnear, hexcept]
    cases hvalid : m.configIn? near with
    | none => simp
    | some found =>
      -- the nearest file is valid, so that it is also the first valid one
      have hfirst := hnear.strengthen ⟨found, hvalid⟩ fun e => HasValidConfig.hasConfigFile
      rw [decidedBy_of_isFirst hfirst, hvalid] at h
      simp [h]
  · have hvalid : start.NoneOf 10 m.HasValidConfig :=
      fun n hn d hd hv => hnone n hn d hd hv.hasConfigFile
    rw [decidedBy_of_noneOf hvalid] at h
    rw [decidedBy_of_noneOf hnone]
    exact ⟨fun _ _ _ _ => h, fun _ => h⟩

/-- Looking for a configuration changes nothing, and the first valid one decides. So does the
nearest file, exactly if it is valid, if there is none, or if the default is found all the same. -/
theorem discover_first_valid (m : Machine) (start : Path) :
    ∃ c, (Config.discover start : StateM Machine Config).run m = (c, m) ∧
      m.DecidedBy start m.HasValidConfig c ∧
      (m.DecidedBy start m.HasConfigFile c ↔
        ∀ d, start.IsFirst 10 m.HasConfigFile d → m.configIn? d = none → c = {}) := by
  obtain ⟨c, hrun, hc⟩ := m.run_discover start
  exact ⟨c, hrun, hc, decidedBy_hasConfigFile_iff hc⟩

/-- A machine with a valid configuration at its root and a malformed one in the directory below. -/
def shadowed : Machine :=
  ((empty.putDirectory ["src"]).put [".iosplint.toml"]
    (.file "[rule]\nmin_metric = 5\n".toUTF8)).put
    [".iosplint.toml", "src"] (.file "not = [valid".toUTF8)

/-- The malformed file is the nearest one, but the file above it decides. -/
theorem malformed_file_is_passed_over :
    (Config.discover ⟨"/src"⟩ : StateM Machine Config).run shadowed =
      ({ rule := { minMetric := 5 } }, shadowed) ∧
    ¬ shadowed.DecidedBy ⟨"/src"⟩ shadowed.HasConfigFile { rule := { minMetric := 5 } } := by
  have hnear : shadowed.readText? (Path.join ⟨"/src"⟩ Config.fileName) = some "not = [valid" :=
    fromUTF8?_toUTF8 _
  have hfar : shadowed.readText? (Path.join ⟨"/"⟩ Config.fileName) =
      some "[rule]\nmin_metric = 5\n" :=
    fromUTF8?_toUTF8 _
  have hmalformed : shadowed.configIn? ⟨"/src"⟩ = none := by
    rw [configIn?, hnear]
    decide +kernel
  have hvalid : shadowed.configIn? ⟨"/"⟩ = some { rule := { minMetric := 5 } } := by
    rw [configIn?, hfar]
    decide +kernel
  constructor
  · have hdirectories : Path.ancestors ⟨"/src"⟩ Config.searchLimit = [⟨"/src"⟩, ⟨"/"⟩] := by decide
    rw [Config.discover, run_firstIn, hdirectories, List.findSome?_cons, hmalformed,
      List.findSome?_cons, hvalid]
    rfl
  · have hfirst : Path.IsFirst ⟨"/src"⟩ 10 shadowed.HasConfigFile ⟨"/src"⟩ :=
      Path.isFirst_succ.2 (.inl ⟨⟨_, hnear⟩, rfl⟩)
    rw [decidedBy_of_isFirst hfirst, hmalformed]
    decide

end Machine

end MethodRoles
