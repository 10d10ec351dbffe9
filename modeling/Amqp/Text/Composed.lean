import Amqp.Text.Runs

/-!
# Composed text

Characters that combine with the one before them can often be written in one character with it.
`compose` divides every such character, puts the marks behind each character into their canonical
order, and joins again whatever can be joined, so that two ways to write a text become one. The
table has the characters that remain once case and compatibility forms are folded away; the
syllables of Hangul follow a rule.
-/

namespace Amqp.Text

/-- The combining classes: `C` gives the class of a run, and in `V` it is zero. -/
def combiningRuns : Array Run := runsOf "
VlcCl.6eC1.6gC4.64C1.6gC1.60C5.64C2.5mC4.64C2.5mCb.64C5.1C4.64Ca.6eC3.64C3.6eC3.64C3.6eC4.64C1.6e
C1.6gC2.64C1.6eC1.6hC2.6iC1.6hC2.6iC1.6hCe.6eV7mC5.6eV7dC1.64C4.6eC1.64C3.6eC1.66C1.64C6.6eC6.64
C2.6eC1.64C2.6eC1.66C1.6cC1.6eC1.aC1.bC1.cC1.dC1.eC1.fC1.gC1.hC1.iC2.jC1.kC1.lC1.mV1C1.nV1C1.oC1.p
V1C1.6eC1.64V1C9.iV1sC8.6eC1.uC1.vC1.wV1cC1.rC1.sC1.tC1.uC1.vC1.wC1.xC1.yC2.6eC2.64C5.6eC1.64C2.6e
C1.64VgC1.zV2tC8.6eV1C4.6eC1.64C1.6eV2C2.6eV1C1.64C2.6eC1.64VzC1.10VuC1.6eC1.64C2.6eC1.64C2.6e
C3.64C1.6eC2.64C1.6eC1.64C3.6eC1.64C1.6eC1.64C1.6eC1.64C1.6eC1.64C4.6eV4eC7.6eC1.64C1.6eV9C1.64Vo
C4.6eV1C9.6eV1C3.6eV1C7.6eV15C5.64V1mC1.6eC3.64C4.6eV16C5.6eC5.64Cf.6eC1.64C2.6eC1.64C2.6eC1.64
C3.6eC3.64C1.rC1.sC1.tC3.6eC1.64C2.6eC2.64C5.6eV1oC1.7VgC1.9V3C1.6eC1.64C2.6eV2vC1.7VgC1.9V1cC3.6e
V1nC2.7VfC4.9V2zC1.7VgC3.9V30C1.7VgC8.9V3cC3.9V30C1.7VgC8.9C1.2cC2.2jV2sC1.7VgC8.9V2uC2.9VgC1.9V3g
C5.9V2xC2.2vC5.9V9C4.2zV30C2.3aC1.9VdC4.3eV24C2.64VrC1.64V1C1.64V1C1.60V1jC1.3lC2.3mC6.3oC4.3mV2
C2.3mC2.6eC1.9V1C2.6eV1qC1.64V34C1.7V1C2.9V2aC1.64VjzC3.6eVqcCb.9VlC1.9V4dC1.9VaC3.6eV5lC1.6cV3z
C1.66C1.6eC5.64V5zC1.6eC1.64V1zC1.9VkCa.6eC1.64V1cC5.6eC6.64C2.6eC1.64V1C2.64C2.6eC2.64C5.6eC1.64
C1h.6eV1gC1.7VfC1.9V12C1.6eC1.64C7.6eV1iC2.9V1mC1.7VbCa.9V1nC4.7V45C3.6eV1C1.1C5.64C2.6eC4.64C1.6e
V1C7.1V4C1.64V6C1.6eV3C2.6eV5iC2.6eC1.64C7.6eC1.64C2.6eC1.6iC1.5yC1.64C1.5mC11.6eC1.6gC2.6cC1.64
C1.62C1.6eC1.6hC1.64C1.6eC2.64VjzC2.6eC2.1C4.6eC3.1C2.6eV4C1.6eV3C2.1C1.6eC1.64C1.6eC2.1C4.64Ck.6e
V2crC4.6eV3wC1.9V2oCw.6eVfeC1.62C1.6cC1.6gC1.66C2.68V2xC4.8Vn9uC1.6eV4Ca.6eVwC2.6eV28C2.6eV7oC1.9
V11C4.9V44C1.9VrCi.6eV1lC3.64V11Cc.9V2cC1.7VcC1.9V6nC1.6eV1C2.6eC1.64V2C2.6eV5C2.6eV1C1.6eV1gCb.9
V6kC3.9Vfn2C44.qVhaC7.6eC7.64Cn.6eVqgC3n.64V2oC1.64V45Ca.6eV1alC1.64V1C1.6eV14C1.6eC1.1C5.64C1.9
V4lC1.6eC5.64VftCc.6eVajC2.6eV28C3.64V1yC2.64C3.6eC1.64C1.6eC4.64V1dC1.6eC1.64C1.6eC1.64V5cC1.9V15
C1.9VeC1.9V1lC1.9C1.7V1xC3.6eV1cC3.9V1pC1.7V24C1.9V9C1.7V2yC1.9C1.7V4yC1.7C6.9V23C2.7VgC3.9Vm
C4a.6eV1uC1.9V3C1.7VnC1.6eV2rC1.9C1.7V6zC1.9C1.7V3iC1.9V3aC1.9C1.7V37C5.9V7dC1.9C1.7V76C2.9V4C1.7
V4cC1.9V2bC1.9ViC9.9V21C1.9VbpC1.9V76C1.7V1C2.9V29C1.9VbtC2.9Vey5C5.1V1nC7.6eVxlCg.6Vf4uC1.1V43q
C2.60C3.1V3C1.6aCd.60C8.64V2C5.6eC2.64VuC4.6eV44C3.6eV2pnC74.6eV1cC7.6eVafCi.6eV18C4.6eVe4C2.6g
C1.64C1.6eVrkC2a.64VyC6.6eC1.7Vl705"

/-- The combining class of a character; zero begins a new group. -/
def combiningClass (c : Char) : Nat := (runAt combiningRuns c).numbers.headD 0

/-- Two characters and the one that they are together. -/
structure Composite where
  base : Char
  mark : Char
  whole : Char

/-- The characters that are two in one. -/
def composites : List Composite :=
  (marksOf "
C2p.lc.68C2p.ld.69C2p.le.6aC2p.lf.6bC2p.lk.6cC2p.lm.6dC2r.mf.6fC2t.lc.6gC2t.ld.6hC2t.le.6i
C2t.lk.6jC2x.lc.6kC2x.ld.6lC2x.le.6mC2x.lk.6nC32.lf.6pC33.lc.6qC33.ld.6rC33.le.6sC33.lf.6t
C33.lk.6uC39.lc.6xC39.ld.6yC39.le.6zC39.lk.70C3d.ld.71C3d.lk.73C2p.lg.75C2p.li.77C2p.mg.79
C2r.ld.7bC2r.le.7dC2r.lj.7fC2r.lo.7hC2s.lo.7jC2t.lg.7nC2t.li.7pC2t.lj.7rC2t.mg.7tC2t.lo.7v
C2v.le.7xC2v.li.7zC2v.lj.81C2v.mf.83C2w.le.85C2x.lf.89C2x.lg.8bC2x.li.8dC2x.mg.8fC2y.le.8l
C2z.mf.8nC30.ld.8qC30.mf.8sC30.lo.8uC32.ld.90C32.mf.92C32.lo.94C33.lg.99C33.li.9bC33.ln.9d
C36.ld.9hC36.mf.9jC36.lo.9lC37.ld.9nC37.le.9pC37.mf.9rC37.lo.9tC38.mf.9vC38.lo.9xC39.lf.a1
C39.lg.a3C39.li.a5C39.lm.a7C39.ln.a9C39.mg.abC3b.le.adC3d.le.afC3e.ld.aiC3e.lj.akC3e.lo.am
C33.m3.blC39.m3.c0C2p.lo.cuC2x.lo.cwC33.lo.cyC39.lo.d0C70.lg.d2C70.ld.d4C70.lo.d6C70.lc.d8
C6c.lg.dbCfb.lg.ddC6e.lg.dfC2v.lo.djC2z.lo.dlC33.mg.dnCdn.lg.dpCia.lo.drC2y.lo.dsC2v.ld.dx
C32.lc.e1C6d.ld.e3C6e.ld.e5C6w.ld.e7C2p.lr.e9C2p.lt.ebC2t.lr.edC2t.lt.efC2x.lr.ehC2x.lt.ej
C33.lr.elC33.lt.enC36.lr.epC36.lt.erC39.lr.etC39.lt.evC37.me.exC38.me.ezC2w.lo.f3C2p.lj.fb
C2t.mf.fdC6u.lg.ffC6t.lg.fhC33.lj.fjCfj.lg.flC3d.lg.fnCqy.ld.pcCq9.ld.q4Cqd.ld.q5Cqf.ld.q6
Cqh.ld.q7Cqz.ld.q8Cqh.lk.qyCqt.lk.qzCqn.ld.r0Cqt.ld.r1Cqx.ld.r2Cu0.li.u1Ctx.lc.uoCtx.lk.up
Ctv.ld.urCuu.lk.uvCu2.ld.v0Cu0.lc.v1Cub.li.v2Cvp.lr.vrCty.li.xuCts.li.y9Cts.lk.ybCtx.li.yf
Cyh.lk.yjCty.lk.ylCtz.lk.ynCu0.lg.yrCu0.lk.ytCu6.lk.yvCyx.lk.yzCul.lk.z1Cub.lg.z3Cub.lk.z5
Cub.ln.z7Cuf.lk.z9Cuj.lk.zdC17r.18z.17mC17r.190.17nC18o.190.17oC17r.191.17pC18q.190.17q
C1cl.190.1c0C1c1.190.1c2C1ci.190.1cjC1t4.1to.1t5C1tc.1to.1tdC1tf.1to.1tgC1xj.1xa.1xnC1xj.1xz.1xo
C287.28m.288C287.27y.28bC287.28n.28cC2aa.2c7.2acC2bq.2bi.2buC2br.2bi.2bvC2bq.2c7.2bwC2fa.2fq.2fc
C2in.2j9.2ioC2iu.2j9.2ivC2iu.2ja.2iwC2iu.2iq.2iyC2iy.2j9.2izC2me.2m6.2miC2mf.2m6.2mjC2me.2mv.2mk
C2qh.2q2.2qiC2qh.2q7.2qkC2qk.2q2.2qlC2qh.2qn.2qmC36t.372.36uC5c5.5dh.5c6C5c7.5dh.5c8C5c9.5dh.5ca
C5cb.5dh.5ccC5cd.5dh.5ceC5ch.5dh.5ciC5dm.5dh.5dnC5do.5dh.5dpC5dq.5dh.5dsC5dr.5dh.5dtC5du.5dh.5dv
C2p.md.5xdC2q.lj.5xfC2q.mb.5xhC2q.mp.5xjC6f.ld.5xlC2s.lj.5xnC2s.mb.5xpC2s.mp.5xrC2s.mf.5xt
C2s.ml.5xvC7n.lc.5xxC7n.ld.5xzC2t.ml.5y1C2t.mo.5y3Cfd.li.5y5C2u.lj.5y7C2v.lg.5y9C2w.lj.5yb
C2w.mb.5ydC2w.lk.5yfC2w.mf.5yhC2w.mm.5yjC2x.mo.5ylC6n.ld.5ynC2z.ld.5ypC2z.mb.5yrC2z.mp.5yt
C30.mb.5yvC5yv.lg.5yxC30.mp.5yzC30.ml.5z1C31.ld.5z3C31.lj.5z5C31.mb.5z7C32.lj.5z9C32.mb.5zb
C32.mp.5zdC32.ml.5zfC6t.ld.5zhC6t.lk.5zjC99.lc.5zlC99.ld.5znC34.ld.5zpC34.lj.5zrC36.lj.5zt
C36.mb.5zvC5zv.lg.5zxC36.mp.5zzC37.lj.601C37.mb.603C9n.lj.605C9t.lj.607C603.lj.609C38.lj.60b
C38.mb.60dC38.mp.60fC38.ml.60hC39.mc.60jC39.mo.60lC39.ml.60nCa1.ld.60pCa3.lk.60rC3a.lf.60t
C3a.mb.60vC3b.lc.60xC3b.ld.60zC3b.lk.611C3b.lj.613C3b.mb.615C3c.lj.617C3c.lk.619C3d.lj.61b
C3e.le.61dC3e.mb.61fC3e.mp.61hC2w.mp.61iC38.lk.61jC3b.lm.61kC3d.lm.61lC2p.mb.61tC2p.ll.61v
C6a.ld.61xC6a.lc.61zC6a.ll.621C6a.lf.623C61t.le.625C77.ld.627C77.lc.629C77.ll.62bC77.lf.62d
C61t.li.62fC2t.mb.62hC2t.ll.62jC2t.lf.62lC6i.ld.62nC6i.lc.62pC6i.ll.62rC6i.lf.62tC62h.le.62v
C2x.ll.62xC2x.mb.62zC33.mb.631C33.ll.633C6s.ld.635C6s.lc.637C6s.ll.639C6s.lf.63bC631.le.63d
Cbl.ld.63fCbl.lc.63hCbl.ll.63jCbl.lf.63lCbl.mb.63nC39.mb.63pC39.ll.63rCc0.ld.63tCc0.lc.63v
Cc0.ll.63xCc0.lf.63zCc0.mb.641C3d.lc.643C3d.mb.645C3d.ll.647C3d.lf.649Cq9.lv.64gCq9.lw.64h
C64g.lc.64iC64h.lc.64jC64g.ld.64kC64h.ld.64lC64g.n6.64mC64h.n6.64nCqd.lv.64wCqd.lw.64xC64w.lc.64y
C64x.lc.64zC64w.ld.650C64x.ld.651Cqf.lv.65cCqf.lw.65dC65c.lc.65eC65d.lc.65fC65c.ld.65gC65d.ld.65h
C65c.n6.65iC65d.n6.65jCqh.lv.65sCqh.lw.65tC65s.lc.65uC65t.lc.65vC65s.ld.65wC65t.ld.65xC65s.n6.65y
C65t.n6.65zCqn.lv.668Cqn.lw.669C668.lc.66aC669.lc.66bC668.ld.66cC669.ld.66dCqt.lv.66oCqt.lw.66p
C66o.lc.66qC66p.lc.66rC66o.ld.66sC66p.ld.66tC66o.n6.66uC66p.n6.66vCqx.lv.674Cqx.lw.675C674.lc.676
C675.lc.677C674.ld.678C675.ld.679C674.n6.67aC675.n6.67bCq9.lc.67kCqd.lc.67mCqf.lc.67oCqh.lc.67q
Cqn.lc.67sCqt.lc.67uCqx.lc.67wCq9.li.69cCq9.lg.69dCq9.n6.69iCqf.n6.69yCqh.li.6a8Cqh.lg.6a9
Cqy.lc.6aaCqh.n6.6aeCqy.n6.6afCqt.li.6aoCqt.lg.6apCqz.lc.6aqCqp.lv.6asCqp.lw.6atCqt.n6.6au
Cqz.n6.6avCqx.n6.6baC6mo.mw.6myC6mq.mw.6mzC6ms.mw.6niC6og.mw.6odC6ok.mw.6oeC6oi.mw.6ofC6pv.mw.6pw
C6q0.mw.6q1C6q3.mw.6q4C6qr.mw.6qsC6qt.mw.6quC6rg.mw.6rlC6rn.mw.6roC6rp.mw.6rrC6rs.mw.6rtC1p.mw.6sg
C6sh.mw.6siC6rx.mw.6stC1o.mw.6suC1q.mw.6svC6sk.mw.6swC6sl.mw.6sxC6sy.mw.6t0C6sz.mw.6t1C6t2.mw.6t4
C6t3.mw.6t5C6t6.mw.6tcC6t7.mw.6tdC6te.mw.6tgC6tf.mw.6thC6ti.mw.6tkC6tj.mw.6tlC6ua.mw.6uk
C6ug.mw.6ulC6uh.mw.6umC6uj.mw.6unC6t8.mw.6w0C6t9.mw.6w1C6tt.mw.6w2C6tu.mw.6w3C6uq.mw.6wa
C6ur.mw.6wbC6us.mw.6wcC6ut.mw.6wdC9jf.9ll.9jgC9jh.9ll.9jiC9jj.9ll.9jkC9jl.9ll.9jmC9jn.9ll.9jo
C9jp.9ll.9jqC9jr.9ll.9jsC9jt.9ll.9juC9jv.9ll.9jwC9jx.9ll.9jyC9jz.9ll.9k0C9k1.9ll.9k2C9k4.9ll.9k5
C9k6.9ll.9k7C9k8.9ll.9k9C9kf.9ll.9kgC9kf.9lm.9khC9ki.9ll.9kjC9ki.9lm.9kkC9kl.9ll.9kmC9kl.9lm.9kn
C9ko.9ll.9kpC9ko.9lm.9kqC9kr.9ll.9ksC9kr.9lm.9ktC9ja.9ll.9lgC9lp.9ll.9lqC9m3.9ll.9m4C9m5.9ll.9m6
C9m7.9ll.9m8C9m9.9ll.9maC9mb.9ll.9mcC9md.9ll.9meC9mf.9ll.9mgC9mh.9ll.9miC9mj.9ll.9mkC9ml.9ll.9mm
C9mn.9ll.9moC9mp.9ll.9mqC9ms.9ll.9mtC9mu.9ll.9mvC9mw.9ll.9mxC9n3.9ll.9n4C9n3.9lm.9n5C9n6.9ll.9n7
C9n6.9lm.9n8C9n9.9ll.9naC9n9.9lm.9nbC9nc.9ll.9ndC9nc.9lm.9neC9nf.9ll.9ngC9nf.9lm.9nhC9ly.9ll.9o4
C9nz.9ll.9o7C9o0.9ll.9o8C9o1.9ll.9o9C9o2.9ll.9oaC9od.9ll.9oeC1huh.1hve.1huiC1huj.1hve.1huk
C1hut.1hve.1huzC1hyp.1hyf.1hymC1hyq.1hyf.1hynC1idj.1ida.1idnC1idj.1idz.1idoC1int.1inu.1inv
C1int.1ink.1inwC1int.1inx.1inyC1iuw.1iun.1iuyC1iux.1iun.1iuzC1jjp.1jjk.1jjs").filterMap fun m =>
    match m.2 with
    | [base, mark, whole] => some ⟨Char.ofNat base, Char.ofNat mark, Char.ofNat whole⟩
    | _ => none

/-- A character of Hangul between the code points. -/
def isBetween (low high : Nat) (c : Char) : Bool := low ≤ c.toNat && c.toNat < high

/-- The parts of a syllable of Hangul. -/
def syllableParts (c : Char) : List Char :=
  let n := c.toNat - 0xac00
  let final := n % 28
  [Char.ofNat (0x1100 + n / 588), Char.ofNat (0x1161 + n / 28 % 21)] ++
    (if final = 0 then [] else [Char.ofNat (0x11a7 + final)])

/-- The characters that one is made of; each division spends one unit of the fuel. -/
def decomposeChar : Nat → Char → List Char
  | 0, c => [c]
  | fuel + 1, c =>
    if isBetween 0xac00 0xd7a4 c then syllableParts c
    else
      match composites.find? (·.whole == c) with
      | some p => decomposeChar fuel p.base ++ [p.mark]
      | none => [c]

/-- How often a character can be divided. -/
def decompositionDepth : Nat := 4

/-- Puts a character of that class in front of the sorted marks with a lower one. -/
def insertMark (c : Char) (order : Nat) : List Char → List Char
  | [] => [c]
  | d :: rest =>
    let other := combiningClass d
    if other ≠ 0 ∧ other < order then d :: insertMark c order rest else c :: d :: rest

/-- The text with the marks behind each character in the order of their classes; marks of one class
keep theirs. -/
def sortMarks : List Char → List Char
  | [] => []
  | c :: rest =>
    let order := combiningClass c
    if order = 0 then c :: sortMarks rest else insertMark c order (sortMarks rest)

/-- The one character that two are together. -/
def composePair? (a b : Char) : Option Char :=
  if isBetween 0x1100 0x1113 a && isBetween 0x1161 0x1176 b then
    some (Char.ofNat (0xac00 + ((a.toNat - 0x1100) * 21 + (b.toNat - 0x1161)) * 28))
  else if isBetween 0xac00 0xd7a4 a && isBetween 0x11a8 0x11c3 b &&
      (a.toNat - 0xac00) % 28 == 0 then
    some (Char.ofNat (a.toNat + (b.toNat - 0x11a7)))
  else (composites.find? fun p => p.base == a && p.mark == b).map (·.whole)

/-- Joins characters to the last one that began a group. Those that stand between, last one first,
keep out all later ones of a class that is not higher than theirs. -/
def joinMarks (starter : Char) (between : List Char) : List Char → List Char
  | [] => starter :: between.reverse
  | c :: rest =>
    let order := combiningClass c
    let isFree := match between with
      | [] => true
      | d :: _ => combiningClass d < order
    match isFree, composePair? starter c with
    | true, some whole => joinMarks whole between rest
    | _, _ =>
      if order = 0 then starter :: between.reverse ++ joinMarks c [] rest
      else joinMarks starter (c :: between) rest

/-- Joins characters behind marks that have nothing to be joined to. -/
def joinAll : List Char → List Char
  | [] => []
  | c :: rest => if combiningClass c = 0 then joinMarks c [] rest else c :: joinAll rest

/-- The text in its composed form. -/
def compose (cs : List Char) : List Char :=
  joinAll (sortMarks (cs.flatMap (decomposeChar decompositionDepth)))

end Amqp.Text
