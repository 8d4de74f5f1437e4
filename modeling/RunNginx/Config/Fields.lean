import RunNginx.Config.Complete

/-!
# The last directive about a field

A directive of a location or a server block edits one field of what is read, so that a field
is what the last directive about it has made of its words.  What an http block takes from a
server, or from the files it includes, is one more server.
-/

namespace RunNginx
namespace ConfigParser

open ByteString Parse Updates

section Rows

/-- The words of the directives of a name. -/
def itemRows (name : Bytes) (items : List (Bytes × List Token)) : List (List Bytes) :=
  items.filterMap fun item => if item.1 = name then some (leadingWords item.2) else none

variable {name other : Bytes} {before : List (Bytes × List Token)} {ts : List Token}

theorem itemRows_append_self :
    itemRows name (before ++ [(name, ts)]) = itemRows name before ++ [leadingWords ts] := by
  simp [itemRows]

theorem itemRows_append_other
    (h : other ≠ name) :
    itemRows name (before ++ [(other, ts)]) = itemRows name before := by
  simp [itemRows, h]

theorem leadingWords_row
    (args : List Bytes) (rest : List Token) :
    leadingWords (words args ++ .semicolon :: rest) = args := by
  induction args with
  | nil => rfl
  | cons w args ih => rw [words_cons, List.cons_append, leadingWords, ih]

end Rows

section Fields

variable {σ ι : Type} {V : ι → Type} {read : σ → (i : ι) → V i} {table : Directives σ}
  {shapes : Shapes σ} {fields : List (Bytes × ι)} {j : ι}

/-- A directive that edits another field leaves a field as it is. -/
theorem keeps_other
    (hshapes : HasShapes table shapes) (hfields : EditFields read shapes fields) (j : ι) (c : V j)
    (hnested : ∀ name d, table.lookup name = some d → shapes.lookup name = some none →
      Keeps (fun st => read st j = c) d)
    {name : Bytes} (hname : (name, j) ∉ fields) :
    Keeps (fun st => read st j = c) (runDirective table unknownDirective name) := by
  unfold runDirective
  rcases hshapes.lookup name with ⟨htable, -⟩ | ⟨d, s, htable, hshape, hsimple⟩
  · rw [htable]
    exact keeps_unknown
  · rw [htable]
    cases s with
    | none => exact hnested name d htable hshape
    | some f =>
        obtain ⟨i, hi, hedits⟩ := hfields.lookup hshape
        have hij : j ≠ i := by
          rintro rfl
          exact hname (mem_of_lookup hi)
        intro st hst ts st' rest hrun
        obtain ⟨args, -, hf⟩ := (hsimple f rfl st ts st' rest.1).mp (reads_of_ok hrun)
        exact ((hedits f rfl args).read_other hij hf).trans hst

/-- The last directive about a field decides what the field is. -/
theorem parseBlock_field
    (name : Bytes) (value : List Bytes → V j) {f : List Bytes → σ → Option σ}
    (hshapes : HasShapes table shapes) (hfields : EditFields read shapes fields)
    (hnested : ∀ c name d, table.lookup name = some d → shapes.lookup name = some none →
      Keeps (fun st => read st j = c) d)
    (hname : shapes.lookup name = some (some f))
    (hset : ∀ args st st', f args st = some st' → read st' j = value args)
    (honly : ∀ other, (other, j) ∈ fields → other = name)
    {block : Block} {s st : σ} {ts : List Token} {rest : Rest ts}
    (h : parseBlock block table s ts = .ok (st, rest)) :
    read st j = ((itemRows name (blockItems block table s ts)).getLast?.map value).getD
      (read s j) := by
  refine block_rule (P := fun items st => read st j =
    ((itemRows name items).getLast?.map value).getD (read s j)) ?_ rfl h
  intro before other st ts st' rest hst hstep
  by_cases hother : other = name
  · subst hother
    rw [itemRows_append_self, List.getLast?_concat]
    rcases hshapes.lookup other with ⟨-, hshape⟩ | ⟨d, t, htable, hshape, hsimple⟩
    · rw [hname] at hshape
      cases hshape
    · obtain rfl := Option.some.inj (hname.symm.trans hshape)
      unfold runDirective at hstep
      rw [htable] at hstep
      obtain ⟨args, hts, hf⟩ := (hsimple f rfl st ts st' rest.1).mp (reads_of_ok hstep)
      rw [hts, leadingWords_row]
      exact hset args st st' hf
  · rw [itemRows_append_other hother, ← hst]
    exact keeps_other hshapes hfields j (read st j) (hnested _)
      (fun hmem => hother (honly other hmem)) st rfl ts st' rest hstep

end Fields

section Blocks

variable {lib : Libraries}

/-- A location of a server block changes nothing but the locations. -/
theorem keeps_locationDirective
    {j : ServerField} (hj : j ≠ .locations) (c : j.Value) :
    Keeps (fun st : ServerReader => st.read j = c) (locationDirective lib) := by
  intro st hst
  unfold locationDirective
  split
  · intro ts st' rest h
    cases h
  · refine gives_bind_any fun loc => gives_pure ?_
    rw [← hst]
    cases j <;> first | rfl | exact absurd rfl hj

theorem keeps_serverNested
    (j : ServerField) (hj : j ≠ .locations) (c : j.Value) (name : Bytes)
    (d : ServerReader → Parser ServerReader) (hd : (serverDirectives lib).lookup name = some d)
    (hnested : serverShapes.lookup name = some none) :
    Keeps (fun st : ServerReader => st.read j = c) d := by
  rw [locationDirective_of_lookup hd hnested]
  exact keeps_locationDirective hj c

variable {P : HttpReader → Prop}

theorem keeps_serverDirective
    (hadd : ∀ st server, P st → P (st.add server)) :
    Keeps P (serverDirective lib) := by
  intro st hst
  refine gives_bind_any fun _ => ?_
  split
  · intro ts st' rest h
    cases h
  · exact gives_bind_any fun server => gives_pure (hadd st server hst)

theorem keeps_includedServer
    (hadd : ∀ st server, P st → P (st.add server)) (name : Bytes) :
    Keeps P (includedServer lib name) := by
  intro st hst
  refine gives_bind_any fun t => ?_
  split
  · refine gives_bind_any fun _ => ?_
    split
    · exact gives_bind_any fun server => gives_pure (hadd st server hst)
    · exact gives_pure hst
  · exact gives_pure hst

/-- An included file adds servers and nothing else. -/
theorem includeServers_rule
    (hadd : ∀ st server, P st → P (st.add server))
    {st st' : HttpReader} {tokens : List Token} (hst : P st)
    (h : includeServers lib st tokens = .ok st') :
    P st' := by
  unfold includeServers at h
  cases hblock : Parse.block includedHead (includedServer lib) st tokens with
  | error e =>
      rw [hblock] at h
      cases h
  | ok r =>
      rw [hblock] at h
      cases h
      exact keeps_block (keeps_includedServer hadd) st hst tokens r.1 r.2 hblock

theorem keeps_includeDirective
    (files : ConfigFiles) (configPath : Bytes) (hadd : ∀ st server, P st → P (st.add server)) :
    Keeps P (oneWord fun pattern st => files.forEach configPath pattern
      (fun st _ tokens => includeServers lib st tokens) st) :=
  keeps_oneWord fun _ _ _ hst h => ConfigFiles.forEach_rule (P := fun _ st => P st)
    (fun _ _ _ _ _ hs hone => includeServers_rule hadd hs hone) hst h

end Blocks

end ConfigParser
end RunNginx
