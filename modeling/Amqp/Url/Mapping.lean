import Amqp.Text.Runs

/-!
# Characters of domains

Before a domain is looked at, each of its characters is replaced: capitals by small letters, marks
that look like a full stop by one, and other forms of a character by its plain one. Some characters
are left out, and some are in no domain.
-/

namespace Amqp.Url

/-- What becomes of each character: `V` stays, `I` is left out, `X` is refused, `U` and `D` are so
many places further up or down, in `E` every other one precedes its counterpart, and `S` becomes
the characters that are listed. -/
def domainRuns : Array Text.Run := Text.runsOf "
V1tUq.wV11XwD1.3kV7S1.w.lkV1D1.21V2I1V1S1.w.lgV2D2.3kS1.w.ldU1.ljV2S1.w.mfD1.3sD1.23V1S1.1d.6dg.1g
S1.1d.6dg.1eS1.1f.6dg.1gV1Un.wV1U7.wVxE1cS1.2x.ljV1S1.2x.2yS1.2x.2yE4V1E6S1.30.53S1.30.53E8
S1.jg.32E1aD1.3dE6D1.7gV1U1.5uE4U1.5qU1.1V1U2.5pU1.1V2U1.27U1.5mU1.5nU1.1V1U1.5pU1.5rV1U1.5vU1.5t
U1.1V3U1.5vU1.5xV1U1.5yE6U1.62U1.1V1U1.62V2U1.1V1U1.62U1.1V1U2.61E4U1.63U1.1V3U1.1V7S1.2s.am
S1.2s.amS1.2s.amS1.30.2yS1.30.2yS1.30.2yS1.32.2yS1.32.2yS1.32.2yEgV1EiV1S1.2s.3eS1.2s.3eS1.2s.3e
U1.1V1D1.2pD1.1kE14D1.3mV1EiV6U1.8bvU1.1V1D1.4jU1.8bsV2U1.1V1D1.5fU1.1xU1.1zEaV2oD1.g8D1.23D1.g8
D1.g1D1.1nD1.1mD1.1hD1.g0D1.fzVvS1.w.liS1.w.ljS1.w.lmS1.w.mgS1.w.lfS1.w.lnV2D1.3hD1.hhD1.hbD1.h7
D1.27V2jD2.1sV1D1.1cS1.lk.ldU1.38V9I1VwE4D1.57V1U1.1V1X2S1.w.qhV3D1.n7U1.38X4S1.w.ldS1.w.lk.ld
U1.12D1.k0U3.11X1U1.1sX1U2.1rV1Uh.wX1U9.wVzU1.8D1.uD1.pD1.dD1.6D1.9D1.fD1.mV1EoD1.1iD1.1cD1.1bV1
D1.1oD1.1sV1U1.1V1D1.1iU1.1V2D3.3mUg.28Uw.wV1cEyV8E1iX1EeV1E2oX1U12.1cX2V1aS1.12d.136V3X2V3X1V1jX8
VrX4V6XhVmX1V2gS1.17r.19wS1.18o.19wS1.1c7.19wS1.18q.19wV2sX1V1cX2V1nX2V2tXeV1nX2V1dX2VfX1VsX2V1X1
VbX5VvX9V22X1V39S1.1sl.1toS1.1sm.1toS1.1sn.1toS1.1ss.1toS1.1sx.1toS1.1sy.1toS1.1t7.1toS1.1tb.1to
V10X1V8X2V2X2VmX1V7X1V1X3V4X2V9X2V2X2V4X8V1X4S1.1wh.1x8S1.1wi.1x8X1S1.1wv.1x8V4X2VpX2V3X1V6X4V2X2
VmX1V7X1V1S1.20i.20sX1V1S1.20o.20sX1V2X2V1X1V5X4V2X2V3X3V1X7S1.1zq.20sS1.1zr.20sS1.1zw.20sV1X1
S1.20b.20sX7VhXaV3X1V9X1V3X1VmX1V7X1V2X1V5X2VaX1V3X1V3X2V1XfV4X2VcX7V7X1V3X1V8X2V2X2VmX1V7X1V2X1V5
X2V9X2V2X2V3X7V3X4S1.275.27wS1.276.27wX1V5X2ViXaV2X1V6X3V3X1V4X3V2X1V1X1V2X3V2X3V3X3VcX4V5X3V3X1V4
X2V1X6V1XeVlX5VdX1V3X1VnX1VgX2V9X1V3X1V4X7V2X1V3X2V1X2V4X2VaX7VmX1V3X1VnX1VaX1V5X2V9X1V3X1V4X7V2X6
V2X1V4X2VaX1V3XcVdX1V3X1V1fX1V3X1V6X4VgX2VqX1V3X1ViX3VoX1V9X1V1X2V7X3V1X4V6X1V1X1V8X6VaX2V3XcV1e
S1.2tp.2syV7X4VtX11V2X1V1X1V5X1VoX1V1X1VcS1.2x9.2wiVaX2V5X1V1X1V7X1VaX2S1.2wb.2vtS1.2wb.2w1V2XwVc
D1.1V1iS1.30i.33rV4X1V4S1.30s.33rV4S1.30x.33rV4S1.312.33rV4S1.317.33rVcS1.30g.33pV3X4V2S1.31t.31u
V1S1.31t.31wS1.33m.328S1.33m.31t.328S1.33n.328S1.33n.31t.328V7S1.31t.328VhS1.32q.33rV4X1V4
S1.330.33rV4S1.335.33rV4S1.33a.33rV4S1.33f.33rVcS1.32o.33pV3X1VfX1VdX11V4gX13U1.5lsX5U1.5lsX2V18
D1.wV2qX2V6gX1V4X2V7X1V1X1V4X2V15X1V4X2VxX1V4X2V7X1V1X1V4X2VfX1V1lX1V4X2V1vX2VwX3VqX6V2eX2D6.8X2
VhsX1VsX3V2hX7VmX9VoX9VkXcVdX1V3X1V2XcV1gX2V14X2VaX6VaX6V6X1V4I3X1I1VaX6V2hX7V17X5V1yXaVvX1VcX4Vc
X4V1X3V16X2V5XbV18X4VqX6VbX3V1qX2V1tX1VtX2VbX6VaX6VeX2VvX1dV25X3V1bX1V38X8V1oX3VfX3V1fD1.4suD1.4st
D1.4skD2.4siD1.4sjD1.4scD1.4roU1.r7nX7D17.2bkX2D3.2bkV8X8V17X5V18D1.5orD1.5l3D1.5osV1D2.5osD1.5ed
D8.5osV1D1.5otD1.5cqD1.5ouD1.5otD2.5osD1.5orD1.5peD2.5boD1.1wD1.5phD2.5pgD1.5blD2.5bkD1.5piV1
D1.5pgD1.5pfD1.5jaD1.5pfD1.5bzD2.1qD1.5piD2.5pfD1.1oD1.5bfD1.5phD1.1jD3.52jD2.522D1.5q1D1.5pt
D2.5prD2.52sD1.52fD2.52bVdD1.4zfVyD1.5e1D1.5rtD1.5e0D1.5nyD1.5dvD1.5ruD1.5duD1.5dtD1.5dqD3.5do
D1.18D1.5cbD1.5doD1.11D1.5ccD1.5dnD1.5dpD4.5doD1.5dmD2.5ddD1.5jeD2.5d9D1.4cD2.5daD1.5s1D3.5d8
D1.553V1sE46V4S1.2p.jiD1.1mV2D1.5vjV1E2oV8D8.8V6X2D6.8X2V8D8.8V8D8.8V6X2D6.8X2V8X1D1.8X1D1.8X1D1.8
X1D1.8V8D8.8V1D1.5hhV1D1.5hiV1D1.5hjV1D1.5hkV1D1.5gtV1D1.5guV1D1.5gvX2S1.64g.qhS1.64h.qhS1.64i.qh
S1.64j.qhS1.64k.qhS1.64l.qhS1.64m.qhS1.64n.qhS1.64g.qhS1.64h.qhS1.64i.qhS1.64j.qhS1.64k.qh
S1.64l.qhS1.64m.qhS1.64n.qhS1.65c.qhS1.65d.qhS1.65e.qhS1.65f.qhS1.65g.qhS1.65h.qhS1.65i.qh
S1.65j.qhS1.65c.qhS1.65d.qhS1.65e.qhS1.65f.qhS1.65g.qhS1.65h.qhS1.65i.qhS1.65j.qhS1.674.qh
S1.675.qhS1.676.qhS1.677.qhS1.678.qhS1.679.qhS1.67a.qhS1.67b.qhS1.674.qhS1.675.qhS1.676.qh
S1.677.qhS1.678.qhS1.679.qhS1.67a.qhS1.67b.qhV2S1.67k.qhS1.q9.qhS1.q4.qhX1V1S1.69i.qhD2.8D1.22
D1.5jjS1.q9.qhS1.w.lvD1.5j9S1.w.lvS1.w.n6S1.w.lk.n6S1.67o.qhS1.qf.qhS1.q6.qhX1V1S1.69y.qhD1.2e
D1.5jwD1.2eD1.5jxS1.qf.qhS1.w.lv.lcS1.w.lv.ldS1.w.lv.n6V3D1.5kzX2V2D2.8D1.2sD1.5kcX1S1.w.lw.lc
S1.w.lw.ldS1.w.lw.n6V3D1.5kjV4D2.8D1.34D1.5jyD1.7S1.w.lk.lcS1.w.lk.ldD1.68fX2S1.67w.qhS1.qx.qh
S1.r2.qhX1V1S1.6ba.qhD1.3kD1.5kdD1.3iD1.5kdS1.qx.qhS1.w.ldS1.w.lwX1D1.6aoD1.6apD1.6aqD1.6arD1.6as
D1.6atD1.6auD1.6avD1.6awD1.6axD1.6ayI1V2X2V1D1.1V5S1.w.mrVcX3V1X7D1.6bzV3S1.6cy.6cyS1.6cy.6cy.6cy
V1S1.6d1.6d1S1.6d1.6d1.6d1V4S1.x.xV1S1.w.lhV8S1.1r.1rS1.1r.xS1.x.1rVdS1.6cy.6cy.6cy.6cyV7D1.6dbI1
X3I1XbD1.6dcD1.6bsX2D6.6dcD1.6drU1.bbD1.6dbD2.6dxD1.6c1Da.6dsD1.6e7U1.avD1.6drD2.6edX1D1.6cvD1.6cs
D1.6cjD1.6cbD1.5yzD1.6ctD4.6crD1.6cqD2.6coX3V8S1.36.37VoXfVxXfS1.2p.1b.2rS1.2p.1b.37D1.6fzS1.4w.2r
V1S1.2r.1b.33S1.2r.1b.39D1.624V1S1.4w.2uD2.6g3D1.6g4D1.6g5D1.6g6D1.6awD1.6g7D1.6g8D1.6g6D1.6g7V1
D1.6g7S1.32.33V2D3.6g9D1.6gaD1.6gbV2S1.37.31S1.38.2t.30S1.38.31V1D1.6gaV1D1.5stV1D1.6geV1D1.6gv
D1.6diD2.6h6V1D1.6h6D2.6h7X1D1.6h2D1.6h1D4.5etD1.6hcV1S1.2u.2p.3cD1.5toD1.5u2D1.5u3D1.5trU1.5tV4
D1.6htD2.6huD2.6hrV6S1.1d.6dg.1jS1.1d.6dg.1lS1.1d.6dg.1d.1cS1.1d.6dg.1fS1.1e.6dg.1fS1.1d.6dg.1h
S1.1e.6dg.1hS1.1f.6dg.1hS1.1g.6dg.1hS1.1d.6dg.1iS1.1h.6dg.1iS1.1d.6dg.1kS1.1f.6dg.1kS1.1h.6dg.1k
S1.1j.6dg.1kS1.1d.6dgD1.6ifS1.2x.2xS1.2x.2x.2xS1.2x.3aD1.6i6S1.3a.2xS1.3a.2x.2xS1.3a.2x.2x.2x
S1.2x.3cD1.6i9S1.3c.2xS1.3c.2x.2xD1.6ioD2.6iyD1.6iqD1.6ivS1.2x.2xS1.2x.2x.2xS1.2x.3aD1.6imS1.3a.2x
S1.3a.2x.2xS1.3a.2x.2x.2xS1.2x.3cD1.6ipS1.3c.2xS1.3c.2x.2xD1.6j4D2.6jeD1.6j6V3X1V5S1.1c.6dg.1fV2X4
V4cS1.6qz.6qzS1.6qz.6qz.6qzV1S1.6r2.6r2S1.6r2.6r2.6r2V6wU2.2jjV70XpVbXlD9.75bS1.1d.1cS1.1d.1d
S1.1d.1eS1.1d.1fS1.1d.1gS1.1d.1hS1.1d.1iS1.1d.1jS1.1d.1kS1.1d.1lS1.1e.1cS1.14.1d.15S1.14.1e.15
S1.14.1f.15S1.14.1g.15S1.14.1h.15S1.14.1i.15S1.14.1j.15S1.14.1k.15S1.14.1l.15S1.14.1d.1c.15
S1.14.1d.1d.15S1.14.1d.1e.15S1.14.1d.1f.15S1.14.1d.1g.15S1.14.1d.1h.15S1.14.1d.1i.15S1.14.1d.1j.15
S1.14.1d.1k.15S1.14.1d.1l.15S1.14.1e.1c.15XkS1.14.2p.15S1.14.2q.15S1.14.2r.15S1.14.2s.15
S1.14.2t.15S1.14.2u.15S1.14.2v.15S1.14.2w.15S1.14.2x.15S1.14.2y.15S1.14.2z.15S1.14.30.15
S1.14.31.15S1.14.32.15S1.14.33.15S1.14.34.15S1.14.35.15S1.14.36.15S1.14.37.15S1.14.38.15
S1.14.39.15S1.14.3a.15S1.14.3b.15S1.14.3c.15S1.14.3d.15S1.14.3e.15Dq.76dDq.773D1.796V10h
S1.6qz.6qz.6qz.6qzV2vS1.1m.1m.1pS1.1p.1pS1.1p.1p.1pV2tS1.8gt.mwV47X2VwX1V2xU1c.1cV1cU1.1V1D1.8af
D1.2xyD1.89zV2E6D1.8bgD1.8alD1.8bjD1.8biV1U1.1V2U1.1V6D1.8peD1.8p3D2.8cfE2sV7E4V3U1.1V1X5V19X1V1X5
V1X2V1kX7D1.eV1XeVoX9V7X1V7X1V7X1V7X1V7X1V7X1V7X1V7X1V3iXyVqX1V4U1.c32V2bU1.m98XcU1.64gU1.65j
U1.65wU1.664U1.66tU1.680U1.686U1.68pU1.69eU1.6raU1.6sbU1.6sgU1.6t2U1.6tlU1.6u5U1.6vlU1.6w5U1.6wf
U1.70pU1.73aU1.741U1.745U1.74yU1.756U1.75wU1.768U1.76wU1.78bU1.78sU1.79iU1.7uhU1.7wgU1.897U1.89t
U1.8a0U1.8aaU1.8arU1.8cuU1.8q2U1.8rdU1.8uoU1.8vaU1.8vsU1.8wdU1.8xuU1.8xwU1.97xU1.986U1.98hU1.98t
U1.9c0U1.9c7U1.9cbU1.9fjU1.9fsU1.9g4U1.9gbU1.9hzU1.9ifU1.9iwU1.9l3U1.a17U1.a2gU1.a30U1.anjU1.ann
U1.apxU1.aqcU1.aqoU1.ar8U1.asaU1.aseU1.azsU1.b0fU1.b1aU1.bthU1.bvaU1.bvwU1.bxhU1.by4U1.bycU1.byi
U1.bzxU1.c01U1.c0wU1.cuuU1.d78U1.d7jU1.d7nU1.d7qU1.d7xU1.d8eU1.d8fU1.danU1.dgmU1.dgqU1.dq4U1.dqd
U1.drqU1.drwU1.ds4U1.dsbU1.dutU1.duzU1.e1aU1.e1gU1.e2sU1.e38U1.e4iU1.eb2U1.eb8U1.eboU1.ekqU1.eo7
U1.eocU1.etdU1.evrU1.ex0U1.f7hU1.fb5U1.fr2U1.frsU1.ftcU1.fuqU1.fwlU1.fwvU1.fx0U1.fxwU1.fzzU1.g08
U1.g9tU1.g9zU1.ga7U1.gafU1.gauU1.gb8U1.gbbU1.gdhU1.gdkU1.gdpU1.h4xU1.h5qU1.hiqU1.hj1U1.hjnU1.hrh
U1.hrtU1.htrU1.hv0U1.iaqU1.ib4U1.ibiU1.icgU1.idgU1.iiyU1.ij9U1.il3U1.iryU1.issU1.iykU1.iz4U1.iz8
U1.j5bU1.jaeU1.jduU1.jdzU1.je3U1.k40U1.k48U1.k8jU1.kcsU1.kcuU1.ke4U1.kh0U1.khcU1.khfU1.khlU1.kka
U1.kl7U1.klcU1.klpU1.kqbU1.krpU1.krsU1.kwuU1.kwwU1.kxeU1.l4dU1.l5oU1.l5uU1.l7rU1.l80U1.l82U1.l8b
U1.l94U1.lk2U1.lv5U1.lveU1.lwfU1.lx0U1.lx7U1.lxgU1.lxjU1.lymU1.lypU1.lz5U1.lz9U1.lzlU1.m0bU1.m0p
U1.m0wU1.m2iU1.m2wU1.m2zX16D1.9ggV1D1.9g4V1fD1.10V1U1.6x5U2.6x7V5X1V2eX2V2S1.w.9llS1.w.9lmV2
S1.9l4.9l6V2nS1.9mb.9mwX5V17X1D2.6cxD1.689D1.6cyD2.689D3.6d0D6.68aD1.6cmD3.6d7D1.6cjDa.6d8Dl.6b2X1
D2.6dtD2.68wD1.68tD1.68sD1.68oD1.68lD1.68kD1.6duD1.68iD1.68hD2.6dwD1.6dvD2.6duD1.6drD1.6dqD5.6dp
D1.6dnD1.6dkD1.6dbD1.6d5D1.6d1D2.68hD3.6ctD2.6bnD1.6blD2.6bdD1.6bcD1.6b3D1.6b1X1V2U1.5m6U1.5q1
U1.5mdU1.7d2U1.5mcU1.5naU1.5mbU1.dcpU1.5ofU1.5mmU1.5lxU1.7t8U1.7f6U1.5qzV1wXcVgS1.14.3cw.15
S1.14.3cy.15S1.14.3cz.15S1.14.3d1.15S1.14.3d2.15S1.14.3d3.15S1.14.3d5.15S1.14.3d7.15S1.14.3d8.15
S1.14.3da.15S1.14.3db.15S1.14.3dc.15S1.14.3dd.15S1.14.3de.15S1.14.xz4.15S1.14.yvs.15S1.14.zc4.15
S1.14.108s.15S1.14.10p4.15S1.14.115g.15S1.14.1224.15S1.14.12ys.15S1.14.13f4.15S1.14.14bs.15
S1.14.14s4.15S1.14.158g.15S1.14.15os.15S1.14.1654.15S1.14.13p8.15S1.14.1350.13ic.15
S1.14.1350.16f8.15X1S1.14.feo.15S1.14.fik.15S1.14.fex.15S1.14.h5n.15S1.14.fis.15S1.14.g31.15
S1.14.fer.15S1.14.g2z.15S1.14.fh9.15S1.14.gg1.15S1.14.kco.15S1.14.m7f.15S1.14.ldg.15S1.14.kdk.15
S1.14.ssx.15S1.14.h7j.15S1.14.k4l.15S1.14.kkq.15S1.14.kcp.15S1.14.ny6.15S1.14.glp.15S1.14.mm1.15
S1.14.rs1.15S1.14.nz1.15S1.14.gc4.15S1.14.fkz.15S1.14.gos.15S1.14.i1y.15S1.14.nhf.15S1.14.flt.15
S1.14.rt3.15S1.14.ggk.15S1.14.nzh.15S1.14.fm9.15S1.14.pnu.15S1.14.po3.15U1.6x7U1.8qfU1.a4hU1.eh4V8
S1.34.38.2tS1.1e.1dS1.1e.1eS1.1e.1fS1.1e.1gS1.1e.1hS1.1e.1iS1.1e.1jS1.1e.1kS1.1e.1lS1.1f.1c
S1.1f.1dS1.1f.1eS1.1f.1fS1.1f.1gS1.1f.1hD1.6lcD2.6lbD3.6laD1.6l9D2.6l8D5.6l7U1.o0iU1.ox5U1.pdg
U1.qa3U1.qqeU1.r6pU1.s3cU1.szzU1.tgaU1.ucxU1.ut8U1.v9jU1.vpuU1.w65S1.14c8.y5cS1.13p8.13dkU1.t9uV1
U1.5fkU1.5jfU1.5frU1.76gU1.5jkU1.63sU1.5fhU1.63oU1.5hxU1.6goU1.adaU1.c80U1.be0U1.ae3U1.itfU1.780
U1.a51U1.al5U1.ad3U1.dyjU1.6m1U1.cmcU1.hsbU1.dzaU1.6ccU1.e2nU1.d5pU1.7o8U1.ij1U1.619U1.6heU1.bih
U1.k11U1.5m8U1.647U1.b7kU1.5euU1.5fsU1.5etU1.8jjU1.6krU1.6fmU1.831U1.81nU1.dh3U1.5lgU1.hspU1.6g5
U1.7l8S1.1f.1iS1.1f.1jS1.1f.1kS1.1f.1lS1.1g.1cS1.1g.1dS1.1g.1eS1.1g.1fS1.1g.1gS1.1g.1hS1.1g.1i
S1.1g.1jS1.1g.1kS1.1g.1lS1.1h.1cS1.1d.kcoS1.1e.kcoS1.1f.kcoS1.1g.kcoS1.1h.kcoS1.1i.kcoS1.1j.kco
S1.1k.kcoS1.1l.kcoS1.1d.1c.kcoS1.1d.1d.kcoS1.1d.1e.kcoS1.2w.2vS1.2t.36.2vS1.2t.3aS1.30.38.2sD1.fi
D1.fhD1.fgD1.ffD2.feD1.fdD1.fcD1.fbD1.faD1.f9D1.f8D1.f7D1.f6D1.f5D1.f4D1.f3D1.f1D1.f0D1.ezD6.ey
D1.ewD1.euD1.esD1.eqD5.eoD1.enD1.emD6.elD4.ekS1.fl0.gp8S1.9lu.9n5.9oc.9mwS1.9lu.9nv.9n9.9lt
S1.9lu.9o3.9ne.9luS1.9lu.9oc.9nvS1.9lw.9mz.9o3.9m8S1.9lw.9o3.9mpS1.9ly.9m1.9o3
S1.9m0.9mh.9m7.9oc.9mxS1.9m0.9oc.9m3.9ocS1.9m2.9o3.9mhS1.9m2.9oc.9nkS1.9m3.9lw.9nu
S1.9m3.9nt.9mr.9mwS1.9m3.9nx.9nu.9ocS1.9m4.9nx.9o3S1.9m4.9o3.9niS1.9m6.9m4S1.9m6.9mz.9oc
S1.9m5.9np.9nu.9ocS1.9m6.9nv.9mo.9ocS1.9m5.9nxS1.9m5.9nx.9m8.9nt.9nkS1.9m5.9nx.9nl.9oc.9mw.9nv
S1.9m5.9nx.9nz.9mr.9mwS1.9m8.9nt.9nkS1.9m8.9nt.9nk.9mw.9o3S1.9m7.9nv.9mk.9lw.9nxS1.9m7.9nx.9oc.9n1
S1.9m9.9oc.9mhS1.9mb.9nv.9myS1.9mb.9oc.9nhS1.9md.9lw.9m7.9nvS1.9md.9o3.9mp.9oc.9nk
S1.9mf.9nu.9o3.9m8S1.9mj.9o3.9mpS1.9mj.9o3.9mwS1.9mo.9oc.9mhS1.9mv.9mfS1.9mx.9nvS1.9mw.9o3
S1.9my.9n2S1.9n2.9mr.9mwS1.9n3.9lw.9msS1.9n5.9oc.9mj.9o3.9mwS1.9n5.9oc.9msS1.9n4.9oc.9nw.9nv
S1.9n8.9lu.9mh.9mw.9nvS1.9n8.9m7.9nvS1.9n8.9mbS1.9n7.9nvS1.9n9.9lt.9nt.9mr.9mxS1.9n9.9lv.9oc.9mw
S1.9na.9mr.9mf.9lz.9nvS1.9n9.9nt.9o3S1.9nc.9m7.9mn.9oc.9nvS1.9ne.9mlS1.9ne.9mz.9n6S1.9nc.9nv.9ms
S1.9ne.9o3.9mhS1.9ne.9oc.9mgS1.9nd.9oc.9mnS1.9nh.9lw.9o3.9mwS1.9ng.9nv.9mwS1.9nf.9o3S1.9nh.9o3.9mx
S1.9nf.9oc.9nvS1.9nf.9oc.9o3S1.9ni.9lw.9m7.9nxS1.9ni.9lw.9nvS1.9ni.9mr.9n3S1.9ni.9nv.9m7
S1.9ni.9o3.9mf.9nr.9o3S1.9nj.9m7.9nx.9o3S1.9nj.9nuS1.9nj.9nu.9n4.9oc.9nvS1.9nl.9m4
S1.9nl.9m4.9mw.9o3S1.9nl.9oc.9mw.9nvS1.9no.9oc.9mxS1.9no.9oc.9nvS1.9nq.9lu.9o3S1.9nu.9mr.9mw.9nv
S1.9nu.9ntS1.9nv.9n8.9ocS1.9nv.9oc.9na.9nvS1.9nw.9nkS1.9nw.9o3.9mw.9ma.9o3S1.9nz.9mr.9mwS1.1c.m9l
S1.1d.m9lS1.1e.m9lS1.1f.m9lS1.1g.m9lS1.1h.m9lS1.1i.m9lS1.1j.m9lS1.1k.m9lS1.1l.m9lS1.1d.1c.m9l
S1.1d.1d.m9lS1.1d.1e.m9lS1.1d.1f.m9lS1.1d.1g.m9lS1.1d.1h.m9lS1.1d.1i.m9lS1.1d.1j.m9lS1.1d.1k.m9l
S1.1d.1l.m9lS1.1e.1c.m9lS1.1e.1d.m9lS1.1e.1e.m9lS1.1e.1f.m9lS1.1e.1g.m9lS1.2w.34.2pS1.2s.2p
S1.2p.39S1.2q.2p.36S1.33.3aS1.34.2rS1.2s.31S1.2s.31.1eS1.2s.31.1fS1.2x.39S1.inn.jdcS1.k6l.gp8
S1.hlz.l7nS1.k5q.lh7S1.kkq.irz.fmi.ny6S1.34.2pS1.32.2pS1.qk.2pS1.31.2pS1.2z.2pS1.2z.2qS1.31.2q
S1.2v.2qS1.2r.2p.30S1.2z.2r.2p.30S1.34.2uS1.32.2uS1.qk.2uS1.qk.2vS1.31.2vS1.2z.2vS1.2w.3e
S1.2z.2w.3eS1.31.2w.3eS1.2v.2w.3eS1.38.2w.3eS1.qk.30S1.31.30S1.2s.30S1.2z.30S1.2u.31S1.32.31
S1.qk.31S1.31.31S1.2r.31S1.2z.31S1.31.31.1eS1.2r.31.1eS1.31.1eS1.2z.31.1eS1.31.31.1fS1.2r.31.1f
S1.31.1fS1.2z.31.1fS1.31.6qd.37S1.31.6qd.37.1eS1.34.2pS1.2z.34.2pS1.31.34.2pS1.2v.34.2pS1.36.2p.2s
S1.36.2p.2s.6qd.37S1.36.2p.2s.6qd.37.1eS1.34.37S1.32.37S1.qk.37S1.31.37S1.34.3aS1.32.3aS1.qk.3a
S1.31.3aS1.2z.3aS1.31.3aS1.34.3bS1.32.3bS1.qk.3bS1.31.3bS1.2z.3bS1.31.3bS1.2z.qxS1.31.qxX1S1.2q.35
S1.2r.2rS1.2r.2sS1.2r.6qd.2z.2vX1S1.2s.2qS1.2v.3dS1.2w.2pS1.2w.34S1.2x.32S1.2z.2zS1.2z.31S1.2z.38
S1.30.31S1.30.32S1.30.33.2vS1.30.3cS1.31.2qS1.31.2x.30S1.31.33.30S1.34.2wX1S1.34.34.31S1.34.36
S1.37.36S1.37.3aS1.3b.2qS1.3a.6qd.31S1.2p.6qd.31S1.1d.k4lS1.1e.k4lS1.1f.k4lS1.1g.k4lS1.1h.k4l
S1.1i.k4lS1.1j.k4lS1.1k.k4lS1.1l.k4lS1.1d.1c.k4lS1.1d.1d.k4lS1.1d.1e.k4lS1.1d.1f.k4lS1.1d.1g.k4l
S1.1d.1h.k4lS1.1d.1i.k4lS1.1d.1j.k4lS1.1d.1k.k4lS1.1d.1l.k4lS1.1e.1c.k4lS1.1e.1d.k4lS1.1e.1e.k4l
S1.1e.1f.k4lS1.1e.1g.k4lS1.1e.1h.k4lS1.1e.1i.k4lS1.1e.1j.k4lS1.1e.1k.k4lS1.1e.1l.k4lS1.1f.1c.k4l
S1.1f.1d.k4lS1.2v.2p.30Vm8dX3V1jX9V9oXkE1aViEsD1.w2aD1.w29V2iX8VyEeV2E1qD1.1V8E4D1.r9gEaV3U1.1V1
D1.wmgV2E4V2EkD1.wn8D1.wnjD1.wnfD1.wn5D1.wn8V1D1.wluD1.wmiD1.wlxU1.psEgD1.1cD1.wn7D1.rawE4X5U1.1V1
X1V1X1V1E4XoD1.x3jD1.x3hD1.x37U1.1V2D1.wy9D1.wx2V1fX3VaX6V1kX8V1yX8VcX6V38XbVuX3V26X1VbX4VxX1V1jX9
VeX2VaX2V2vXoVsXaV6X2V6X2V6X9V7X1V7X1V18D1.txD1.12D1.xdfD1.dV9D1.xcsV2X4D28.tzkV1aX2VaX6V8mcXcVnX4
V1dX6isD1.lh4D1.sulD1.kzcD1.ldnD1.rarD1.xqrD1.wm9D1.hnvD1.hnwD1.vjsD1.ke1D1.wasD1.vk4D1.tufD1.pt1
D1.o0aD1.mohD1.mdzD1.m56D1.kn8D1.s9eD1.rneD1.qwtD1.qbdD1.n2zD1.khbD1.ispD1.xp5D1.wpzD1.s2hD1.qo3
D1.mpeD1.hz6D1.us1D1.r3rD1.ms6D1.m2oD1.tp8D1.nkeD1.mbsD1.uhqD1.suqD1.rlsD1.qi7D1.km6D1.xifD1.x2v
D1.wupD1.tbgD1.s4eD1.qoyD1.pqkD1.nxvD1.mr3D1.moqD1.l6wD1.jd2D1.iiyD1.i0wD1.pf3D1.p8dD1.of1D1.n79
D1.k6zD1.hxdD1.lt7D1.vojD1.ugvD1.oo4D1.nuvD1.qn8D1.pdpD1.lfqD1.jf6D1.voyD1.uztD1.sahD1.rjnD1.rb3
D1.oioD1.obdD1.jk6D1.ww0D1.nuwD1.x2wD1.x3dD1.p4qD1.oexD1.n6vD1.jj8D1.lp6D1.tqkD1.sbeD1.lsvD1.xt1
D1.v3sD1.ua6D1.qfuD1.q2aD1.wukD1.pd5D1.xieD1.ud9D1.xuiD1.rrwD1.t81D1.ojsD1.wq0D1.vtaD1.prgD1.n51
D1.lvpD1.rzqD1.kw1D1.ru2D1.tpxD1.nf3D1.tlhD1.q35D1.xqhD1.x73D1.x4gD1.smxD1.olwD1.nilD1.luzD1.khb
D1.wwaD1.wn2D1.vm6D1.ujaD1.t6mD1.r5yD1.pcrD1.jq1D1.isdD1.hypD1.hx7D1.wz3D1.szpD1.s2dD1.kyzD1.umy
D1.u0vD1.txsD1.tfbD1.rcfD1.qx6D1.qa3D1.p8rD1.of6D1.nxkD1.l0yD1.n1nD1.ktzD1.k7lD1.x39D1.wzeD1.wkh
D1.r13D1.mamD1.lx3D1.ul5D1.ucuD1.tntD1.s1jD1.orsD1.qiaD1.xqcD1.w4wD1.v5vD1.usxD1.uc0D1.qgrD1.qbp
D1.o45D1.nzeD1.kfxD1.ji4D1.jfvD1.ja4D1.xm2D1.pagD1.kjnD1.jk0D1.u6wD1.xtgD1.xcxD1.v66D1.v3yD1.t9h
D1.se5D1.quqD1.pz3D1.n2eD1.ksnD1.htjD1.t31D1.jo8D1.x1aD1.swdD1.st2D1.rrdD1.rhrD1.qf7D1.q5wD1.pk3
D1.on3D1.j8yD1.x9gD1.tycD1.jmjD1.xihD1.uykD1.rn0D1.l2lD1.uh9D1.u51D1.ssjD1.qj8D1.jmeD1.x4kD1.wr3
D1.v3uD1.t71D1.sybD1.soqD1.rumD1.qfyD1.q2rD1.o6lD1.mc8D1.mbrD1.kkdD1.jk8D1.wx8D1.rhuD1.wr4D1.qvy
D1.qc7D1.mwmD1.jm6D1.ihnD1.i1gD1.swtD1.roqD1.npqD1.p4cD1.p20D1.orrD1.qpmD1.r4yD1.lusD1.xtpD1.ngo
D1.x51D1.x6hD1.uorD1.tv3D1.oq5D1.vb3D1.rtzD1.t3mD1.l3gD1.mgsD1.jp8D1.m7zD1.unsD1.xccD1.wgdV2D1.vxy
V1D1.t5qV2D1.x87D1.qngD1.pxpD1.pgcD1.pffD1.pf9D1.pe4D1.jieD1.orjD1.o69V1D1.mxaV1D1.lyiV2D1.kx9
D1.krtV3D1.j7fD1.j73D1.j5wD1.i9lD1.kswD1.jncD1.xoiD1.xfuD1.xd1D1.x2iD1.x1sD1.wysD1.wihD1.wflD1.wcw
D1.vztD1.vwyD1.v6fD1.v66D1.ucpD1.u6uD1.u5tD1.u32D1.tf6D1.tb4D1.t6aD1.ssfD1.rtaD1.rosD1.rhhD1.r16
D1.qvyD1.qi0D1.pmiD1.phqD1.phgD1.phiD1.phbD1.ph6D1.ph0D2.pfpD1.pasD1.p90D1.p06D1.okjD1.ojzD1.oig
D1.oa0D1.o5yD1.nsfD1.nokD1.nolD1.nbcD1.mdsD1.ma3D1.m01D1.lyiD1.ln5D1.llpD1.l2oD1.kz3D1.jnpD1.jfu
D1.je7D1.ueuU1.1sw2D1.nrpX2D1.y16D1.xbwD1.xe2D1.xrnD1.xf3D1.xdhD1.x4fD1.x31D1.wkbD1.wmcD1.wkh
D1.wihD1.w0yD1.vyiD1.vuiD1.vu3D1.vmmD1.vh5D1.ur4D1.uqyD1.umzD1.ul4D1.ucuD1.u9lD1.ubkD1.u7vD1.u96
D1.u55D1.u3cD1.ts9D1.tpuD1.todD1.th6D1.t99D1.t4rD1.t4oD1.t32D1.s9oD1.s7wD1.rx2D1.rlpD1.rm6D1.rjs
D1.rctD1.r3iD1.pvaD1.qy1D1.quoD1.qraD1.qi8D1.qe4D1.qcoD1.q6fD1.q6eD1.q1oD1.q18D1.q0kD1.py7D1.pyi
D1.pnjD1.pa3D1.p2lD1.oxfD1.or8D1.on0D1.odvD1.o8dD1.nkxD1.nglD1.mrgD1.metD1.mcxD1.mciD1.m4aD1.m2q
D1.m40D1.m2jD1.m2nD1.m35D1.m12D1.lyuD1.lo9D1.l8qD1.l01D1.krvD1.klrD1.jt6D1.jqcD1.jn6D1.jjiD1.jij
D1.ji8D1.jgxD1.iwrD1.i0iU1.1njvU1.1njoU1.1ptwD1.11rpD1.10vvD1.10uzU1.1vucU1.1xx6U1.24n0D1.i39
D1.i17X12S1.2u.2uS1.2u.2xS1.2u.30S1.2u.2u.2xS1.2u.2u.30S1.37.38S1.37.38XcS1.12s.12uS1.12s.12d
S1.12s.12jS1.132.12uS1.12s.12lX5S1.15l.14kV1S1.16a.14nD1.1cfyD1.1cghD2.1cgfD3.1cg9D1.1cfzD1.1cfy
D1.1dkuS1.161.14xS1.161.14yS1.161.14s.14xS1.161.14s.14yS1.15c.14nS1.15c.14oS1.15c.14sS1.15d.14s
S1.15e.14sS1.15f.14sS1.15g.14sS1.15h.14sS1.15i.14sX1S1.15k.14sS1.15l.14sS1.15m.14sS1.15n.14s
S1.15o.14sX1S1.15q.14sX1S1.15s.14sS1.15t.14sX1S1.15v.14sS1.15w.14sX1S1.15y.14sS1.15z.14sS1.160.14s
S1.161.14sS1.162.14sS1.15h.14pS1.15d.14vS1.15n.14vS1.15w.14vS1.15c.15oD1.1cdbD1.1cdcD1.1cd3D1.1cd4
D1.1cd5D1.1cd6D1.1cd4D1.1cd5D1.1cd6D1.1cd7D1.1cd6D1.1cd7D1.1cd8D1.1cd9D1.1cdgD1.1cdhD1.1cdiD1.1cdj
D1.1cdfD1.1cdgD1.1cdhD1.1cdiD1.1cdpD1.1cdqD1.1cdrD1.1cdsD1.1ccmD1.1ccnD1.1ccoD1.1ccpD1.1ccoD1.1ccp
D1.1ccqD1.1ccrD1.1cdqD1.1cdrD1.1cdsD1.1cdtD1.1cdvD1.1cdwD1.1cdxD1.1cdyD1.1cdwD1.1cdxD1.1cdyD2.1cdz
D1.1ce0D1.1ce1D1.1ce2D1.1cdxD1.1cdyD1.1ce0D1.1ce1D1.1ce0D1.1ce1D1.1ce8D1.1ce9D1.1cduD1.1cdvD1.1ce3
D1.1ce4D1.1cdhD1.1cdiD1.1cdjD1.1cdkD1.1cdfD1.1cdgD1.1cdhD1.1cdiD1.1cdfD1.1cdgD1.1cdhD1.1cdiD1.1cdl
D1.1cdmD1.1cdnD1.1cdoD1.1cdgD2.1cdhD1.1cdiD1.1cdjD1.1cdkD1.1cdgD2.1cdhD1.1cdiD1.1cdjD1.1cdkD1.1cdo
D1.1cdpD1.1cdqD1.1cdrD1.1cd8D2.1cd9D1.1cdaVhXgD1.1cfaD1.1cfbD1.1cfcD1.1cfdD1.1ceoD1.1cepD1.1cer
D1.1cesD1.1cerD1.1cesS1.1c7.19wD1.1cerD1.1cesD1.1cezD1.1cf0D1.1cexD1.1ceyD1.1cesD1.1cetD1.1ceu
D1.1cevD1.1cinD1.1cioS1.17q.17rS1.17q.17rS1.17q.1clS1.17q.1clS1.17q.18oS1.17q.18oS1.17q.1c7
S1.17q.1c7S1.17q.1c6S1.17q.1c6S1.17q.1c8S1.17q.1c8S1.17q.1cgS1.17q.1cgS1.17q.1cgS1.17q.18p
S1.17q.18pS1.17q.18pD1.1cfkD1.1cflD1.1cfmD1.1cfnS1.17q.17wS1.17q.17xS1.17q.18lS1.17q.18pS1.17q.18q
S1.17s.17wS1.17s.17xS1.17s.17yS1.17s.18lS1.17s.18pS1.17s.18qS1.17u.17wS1.17u.17xS1.17u.17y
S1.17u.18lS1.17u.18pS1.17u.18qS1.17v.17wS1.17v.18lS1.17v.18pS1.17v.18qS1.17w.17xS1.17w.18l
S1.17x.17wS1.17x.18lS1.17y.17wS1.17y.17xS1.17y.18lS1.183.17wS1.183.17xS1.183.17yS1.183.18l
S1.185.17xS1.185.18lS1.186.17wS1.186.17xS1.186.17yS1.186.18lS1.187.17xS1.187.18lS1.188.18l
S1.189.17wS1.189.18lS1.18a.17wS1.18a.18lS1.18h.17wS1.18h.17xS1.18h.17yS1.18h.18lS1.18h.18p
S1.18h.18qS1.18i.17xS1.18i.18lS1.18i.18pS1.18i.18qS1.18j.17rS1.18j.17wS1.18j.17xS1.18j.17y
S1.18j.18kS1.18j.18lS1.18j.18pS1.18j.18qS1.18k.17wS1.18k.17xS1.18k.17yS1.18k.18lS1.18k.18p
S1.18k.18qS1.18l.17wS1.18l.17xS1.18l.17yS1.18l.18lS1.18l.18pS1.18l.18qS1.18m.17wS1.18m.17x
S1.18m.17yS1.18m.18lS1.18m.18pS1.18m.18qS1.18n.17wS1.18n.18lS1.18n.18pS1.18n.18qS1.18q.17w
S1.18q.17xS1.18q.17yS1.18q.18lS1.18q.18pS1.18q.18qS1.180.19sS1.181.19sS1.18p.19sS1.w.18s.18x
S1.w.18t.18xS1.w.18u.18xS1.w.18v.18xS1.w.18w.18xS1.w.18x.19sS1.17q.181S1.17q.182S1.17q.18l
S1.17q.18mS1.17q.18pS1.17q.18qS1.17s.181S1.17s.182S1.17s.18lS1.17s.18mS1.17s.18pS1.17s.18q
S1.17u.181S1.17u.182S1.17u.18lS1.17u.18mS1.17u.18pS1.17u.18qS1.17v.181S1.17v.182S1.17v.18l
S1.17v.18mS1.17v.18pS1.17v.18qS1.18h.18pS1.18h.18qS1.18i.18pS1.18i.18qS1.18j.17rS1.18j.18k
S1.18j.18lS1.18j.18pS1.18j.18qS1.18k.18lS1.18k.18pS1.18k.18qS1.18l.17rS1.18l.18lS1.18m.181
S1.18m.182S1.18m.18lS1.18m.18mS1.18m.18pS1.18m.18qS1.18p.19sS1.18q.181S1.18q.182S1.18q.18l
S1.18q.18mS1.18q.18pS1.18q.18qS1.17q.17wS1.17q.17xS1.17q.17yS1.17q.18lS1.17q.18nS1.17s.17w
S1.17s.17xS1.17s.17yS1.17s.18lS1.17s.18nS1.17u.17wS1.17u.17xS1.17u.17yS1.17u.18lS1.17u.18n
S1.17v.18lS1.17w.17xS1.17w.18lS1.17x.17wS1.17x.18lS1.17y.17wS1.17y.18lS1.183.17wS1.183.17x
S1.183.17yS1.183.18lS1.185.17xS1.185.17yS1.185.18lS1.186.17wS1.186.17xS1.186.17yS1.186.18l
S1.187.17xS1.188.18lS1.189.17wS1.189.18lS1.18a.17wS1.18a.18lS1.18h.17wS1.18h.17xS1.18h.17y
S1.18h.18lS1.18i.17xS1.18i.18lS1.18j.17wS1.18j.17xS1.18j.17yS1.18j.18kS1.18j.18lS1.18k.17w
S1.18k.17xS1.18k.17yS1.18k.18lS1.18k.18nS1.18l.17wS1.18l.17xS1.18l.17yS1.18l.18lS1.18m.17w
S1.18m.17xS1.18m.17yS1.18m.18lS1.18m.18nS1.18n.17wS1.18n.18lS1.18n.19sS1.18q.17wS1.18q.17x
S1.18q.17yS1.18q.18lS1.18q.18nS1.17q.18lS1.17q.18nS1.17s.18lS1.17s.18nS1.17u.18lS1.17u.18n
S1.17v.18lS1.17v.18nS1.183.18lS1.183.18nS1.184.18lS1.184.18nS1.18j.18kS1.18j.18lS1.18k.18l
S1.18m.18lS1.18m.18nS1.18q.18lS1.18q.18nS1.18g.18u.18xS1.18g.18v.18xS1.18g.18w.18xS1.187.18p
S1.187.18qS1.189.18pS1.189.18qS1.18a.18pS1.18a.18qS1.183.18pS1.183.18qS1.184.18pS1.184.18q
S1.17x.18pS1.17x.18qS1.17w.18pS1.17w.18qS1.17y.18pS1.17y.18qS1.185.18pS1.185.18qS1.186.18p
S1.186.18qS1.184.17wS1.184.17xS1.184.17yS1.184.18lS1.184.181S1.183.181S1.185.181S1.186.181
S1.187.18pS1.187.18qS1.189.18pS1.189.18qS1.18a.18pS1.18a.18qS1.183.18pS1.183.18qS1.184.18p
S1.184.18qS1.17x.18pS1.17x.18qS1.17w.18pS1.17w.18qS1.17y.18pS1.17y.18qS1.185.18pS1.185.18q
S1.186.18pS1.186.18qS1.184.17wS1.184.17xS1.184.17yS1.184.18lS1.184.181S1.183.181S1.185.181
S1.186.181S1.184.17wS1.184.17xS1.184.17yS1.184.18lS1.183.18nS1.184.18nS1.187.18lS1.183.17w
S1.183.17xS1.183.17yS1.184.17wS1.184.17xS1.184.17yS1.187.18lS1.188.18lS1.17r.18rS1.17r.18rVi
S1.17u.17w.18lS1.17u.17x.17wS1.17u.17x.17wS1.17u.17x.18lS1.17u.17y.18lS1.17u.18l.17wS1.17u.18l.17x
S1.17u.18l.17yS1.17w.18l.17xS1.17w.18l.17xS1.17x.18l.18qS1.17x.18l.18pS1.183.17x.17wS1.183.17w.17x
S1.183.17w.18pS1.183.18l.17xS1.183.18l.17xS1.183.18l.17wS1.183.18l.18lS1.183.18l.18lS1.185.17x.17x
S1.185.17x.17xS1.185.18l.18lS1.184.17x.18lS1.184.17x.18lS1.184.17w.18qS1.184.18l.17yS1.184.18l.17y
S1.184.18l.18lS1.184.18l.18lS1.186.17x.18pS1.186.17y.18lS1.186.17y.18lS1.187.18l.17xS1.187.18l.17x
S1.187.18l.18lS1.187.18l.18qS1.189.17w.18lS1.189.18l.18lS1.189.18l.18lS1.189.18l.18pS1.18a.18l.18l
S1.18a.18l.18qS1.18a.18l.18pS1.18h.17y.18lS1.18h.17y.18lS1.18i.18l.17xS1.18i.18l.18lS1.18k.17x.18l
S1.18k.17x.18qS1.18k.17x.18pS1.18k.17w.17wS1.18k.17w.17wS1.18k.17y.18lS1.18k.17y.18lS1.18k.18l.17x
S1.18k.18l.17xS1.18l.17x.17wS1.18l.17x.18lS1.18l.17x.18qS1.18l.17w.17xS1.18l.17w.18lS1.18l.17y.17w
S1.18l.17y.18lX2S1.18l.17w.17yS1.18n.18l.17wS1.18n.18l.18lS1.18m.17x.18lS1.18m.17x.18p
S1.18m.17w.18lS1.18m.17w.18lS1.18m.17w.18pS1.18m.18l.18qS1.18m.18l.18pS1.18q.18l.18lS1.18q.18l.18l
S1.17s.17y.18qS1.17u.17w.18qS1.17u.17w.18pS1.17u.17y.18qS1.17u.17y.18pS1.17u.18l.18qS1.17u.18l.18p
S1.17w.18l.18qS1.17w.17x.18pS1.17w.18l.18pS1.183.17y.18pS1.185.17x.18qS1.184.17x.18qS1.186.17x.18q
S1.18k.17w.18qS1.18k.18l.18qS1.18q.17x.18qS1.18q.17w.18qS1.18q.18l.18qS1.18l.18l.18qS1.18i.18l.18q
S1.18m.17x.18qS1.18i.18l.17xS1.18k.17x.18lS1.189.18l.18qS1.18j.18l.18qS1.18m.17w.17xS1.18l.17y.18q
S1.18k.17w.18lS1.18j.18l.18lS1.18k.17w.18lS1.18m.17w.17xS1.17w.17x.18qS1.17x.17w.18qS1.18l.17w.18q
S1.18h.18l.18qS1.17s.17x.18qS1.18j.18l.18lS1.189.17w.18lS1.185.18l.18lS1.183.17y.18qS1.18m.17w.18q
X7V1XwS1.185.18k.1ciS1.18i.18k.1ciS1.17r.18k.18k.18nS1.17r.18j.17s.181S1.18l.17x.18l.17z
S1.185.18k.189.18lS1.181.183.18o.18kS1.189.18k.18q.18nS1.18o.183.18k.18lS1.185.18k.18p
S1.185.18k.18p.w.17r.18k.18k.18n.w.189.18k.18q.18n.w.18o.183.18k.18l
S1.17w.18k.w.17w.18k.17r.18k.18nS1.181.1cc.17r.18kV3IgD1.1e5gD1.14pcX1D2.1e55D1.1e5wD1.1e53D2.14ox
X7VgX1D1.17vhD1.17vjD1.1e50D1.1e51D2.1e6lD1.1e4cD1.1e4bD2.14pxD2.14q3D2.14qbD2.14qfD4.14qdV2
D1.1e5oD1.1e5nS1.w.lhS1.w.lhS1.w.lhS1.w.lhD1.1e5qD1.1e5rD1.1e5sD1.1e78D1.14r4X2D1.1e6xD1.1e6z
D1.1e6vD1.1e7qD1.17wkD2.1e7lD1.1e5cD1.1e5bD2.14qxD1.1e7wD1.1e7uD2.1e7rD1.1e7qD1.1e7cD1.1e7bD1.1e7d
X1D1.1e6kD2.1e85D1.1e7fX4S1.w.18rS1.18g.18rS1.w.18sV1S1.w.18tX1S1.w.18uS1.18g.18uS1.w.18v
S1.18g.18vS1.w.18wS1.18g.18wS1.w.18xS1.18g.18xS1.w.18yS1.18g.18yD2.1d27D2.1d28D2.1d29D2.1d2a
D2.1d2bD1.1d2cD1.1d2dD2.1d2eD2.1d2fD1.1d2gD1.1d2hD2.1d2iD2.1d2jD1.1d2kD1.1d2lD2.1d2mD1.1d2nD1.1d2o
D2.1d2pD1.1d2qD1.1d2rD2.1d2sD1.1d2tD1.1d2uD2.1d2vD1.1d2wD1.1d2xD2.1d2yD2.1d2zD2.1d30D2.1d31D2.1d32
D1.1d33D1.1d34D2.1d35D1.1d36D1.1d37D2.1d38D1.1d39D1.1d3aD2.1d3bD1.1d3cD1.1d3dD2.1d3eD1.1d3fD1.1d3g
D2.1d3hD1.1d3iD1.1d3jD2.1d3kD1.1d3lD1.1d3mD2.1d3nD1.1d3oD1.1d3pD1.1d3qD1.1d3kD1.1d3lD1.1d3mD2.1d3n
D1.1d3oD1.1d3pD2.1d3qD1.1d3rD1.1d3sD2.1d3tD1.1d3uD1.1d3vD2.1d3wD1.1d3xD1.1d3yD2.1d3zD1.1d40D1.1d41
D2.1d42D1.1d43D1.1d44D2.1d45D2.1d46D2.1d47D1.1d48D1.1d49D1.1d4aS1.18k.17mS1.18k.17mS1.18k.17n
S1.18k.17nS1.18k.17pS1.18k.17pS1.18k.17rS1.18k.17rX2I1X1Dw.1ecgDq.1ebkD10.1ecgD2.168qD1.1eer
D2.14yeD1.14yrD1.14ruD1.14s4D1.14ueD1.14udD1.14ucD1.14ubD1.14uaD1.14spD1.14soD1.14snD1.14toD1.14s4
D1.14unD1.14umD1.14ulD1.14ukD2.14ujD1.14uiD1.14uhD1.14ugD1.14ufD1.14ueD1.14udD1.14ucD1.14ubD1.14ua
D1.14u9D1.14u8D1.14u6D1.14u5D1.14u4D6.14u3D1.14u1D1.14tzD1.14txD1.14tvD5.14ttD1.14tsD1.14trD6.14tq
D1.14tpD1.14tmD2.14w5X1D2.1b4xD1.1b09D1.1b4yD2.1b09D3.1b50D6.1b0aD1.1b4mD3.1b57D1.1b4jDa.1b58X3
D6.1b35X2D6.1b37X2D6.1b39X2D3.1b3bX3D2.1ef2D1.1eeuS1.w.lgD1.1ef2D1.1ef4D1.183hX1D1.178mD4.17x5
D1.174dD1.1737XhVcX1VqX1VjX1V2X1VfX2VeXyV3fX5V3X4V19X3V2gX1VdX3V1X1bV1aX3mVtX3V1dXfVsX4V10X9VuX5
V17X5VuX1V11X4VeX16U14.14V3aX2VaX6U10.14X4V10X4V14X8V1gXbV1Ub.13X1Uf.13X1U7.13X1U2.13X1VbX1VfX1V7
X1V2X1vV8nX9VmXaV8XoV1D2.1fhtD1.1fvhD1.1fjfD1.1fleX1D1.1fj8D1.i76D1.1fj8D1.1fjaD2.1flhD1.1a7w
D1.1fliD1.1fldD1.1fjbD1.1fl9D1.1flcD1.1flfD1.1fjtD1.1fu6D1.1fjuD1.1flcD1.1fkkD2.1fjjD1.1flbU1.16js
D1.iz3D1.1flcU1.16jqD1.1fkiU1.16jpD1.1fvuD2.1fl9D1.1fzoD1.1fl8U1.16jlD2.1fl7D1.1fl6D1.1fk3D1.1fk6
D1.i86D1.1fk7D1.1fl3D1.17b3X1D1.1fkzD2.1fkiD1.1fktD3.1fquU1.16j5U1.16joX1xV6X2V1X1V18X1V2X3V1X2Vn
X1V20X8V9X1cVjX1V2X5VxX3VrX5V1X1sV1kX4VkX2V1eX1V2X5V8X1V3X1VtX2V3X4VaX7V9X7V1sXwV13X4VcX9V1iX3VtX2
VrX5VqX7V4XcV7X28V21X1jU1f.1sXdV1fX7V1aX8VaX86VvX1V16X1V3X2V2X23V17X8V16XmVqX12VsXkVnX9V26X4V10X9
V1qX1V5XdVpX7VaX6V1hX1ViX8V13X9V2oX1VkXbViX1V1bX1qV7X1V1X1V4X1VfX1VbX6V1nX5VaX6V4X1V8X2V2X2VmX1V7
X1V2X1V5X1VaX2V2X2V3X2V1X6V1X5V7X2V7X3V5X3vV2kX1V5XuV20X8VaX4mV1iX2V12XyV1xXbVaX6VdXjV1mX6VaX1iVr
X2VfX4VnX55V1oX2sUw.wV1fXcV8X2V1X2V8X1V2X1VuX1V2X2VcX9VaX1yV8X2V1aX2VbXrV20X8V2bXdV21X7VaX6uV9X1
V19X1VeXaVtX3VwX2VmX1VeX21V7X1V2X1V18X3V1X1V2X1V9X8VaX6V6X1V2X1V11X1V2X1V6X7VaX8mVpX7VhX1V15X3Vs
X2eV1XfV1eXdVpnX2uV33X1V5XbV5gX218V2rXdVtsXgVmX33eVg7X6ntVftX7VvX1VaX4V29X1VaX6VuX2V6XaV1yXaVaX1V7
X1VlX5VjXj4Uw.wV1nX2tV23X4V1lX7VhX1sV5XbV2XeV4qgX8VyeX16V9X6w7V4X1V7X1V2X1V83XfV1XtV3X2V1XeV4X8Vb0
X1s4V2zX5VdX3V9X7VaX2V4I4X3mkV1aX2VnX9V38X1oV6uXaV13X2V1hS1.2jx3.2jxhS1.2jx4.2jxhS1.2jx4.2jxh.2jxq
S1.2jx4.2jxh.2jxrS1.2jx4.2jxh.2jxsS1.2jx4.2jxh.2jxtS1.2jx4.2jxh.2jxuVeX8V1sS1.2jzt.2jxh
S1.2jzu.2jxhS1.2jzt.2jxh.2jxqS1.2jzu.2jxh.2jxqS1.2jzt.2jxh.2jxrS1.2jzu.2jxh.2jxrV16XlV1yX3eVkXcVk
XcV2fX9VpX3rDq.2kdbDq.2ke1Dq.2kerD7.2kfhX1Di.2kfhDq.2kg7Dq.2kgxD1.2khnX1D2.2khnX2D1.2khnX2D2.2khn
X2D4.2khnX1D8.2khnD4.2kidX1D1.2kidX1D7.2kidX1Db.2kidDq.2kj3Dq.2kjtD2.2kkjX1D4.2kkjX2D8.2kkjX1
D7.2kkjX1Dq.2kl9D2.2klzX1D4.2klzX1D5.2klzX1D1.2klzX3D7.2klzX1Dq.2kmpDq.2knfDq.2ko5Dq.2kovDq.2kpl
Dq.2kqbDq.2kr1Dq.2krrDq.2kshDq.2kt7Dq.2ktxDq.2kunDq.2kvdD1.2kqbD1.2kj2X2Dh.2k8nD1.2k8xD7.2k8n
D1.2e9mDh.2k9dD1.2k9cD7.2k9dD1.2eahD1.2k9zD1.2k9xD1.2k9wD1.2k9lD1.2k9rD1.2k9tDh.2ka9D1.2kajD7.2ka9
D1.2eb8Dh.2kazD1.2kayD7.2kazD1.2ec3D1.2kblD1.2kbjD1.2kbiD1.2kb7D1.2kbdD1.2kbfDh.2kbvD1.2kc5D7.2kbv
D1.2ecuDh.2kclD1.2kckD7.2kclD1.2edpD1.2kd7D1.2kd5D1.2kd4D1.2kctD1.2kczD1.2kd1Dh.2kdhD1.2kdrD7.2kdh
D1.2eegDh.2ke7D1.2ke6D7.2ke7D1.2efbD1.2ketD1.2kerD1.2keqD1.2kefD1.2kelD1.2kenDh.2kf3D1.2kfdD7.2kf3
D1.2eg2Dh.2kftD1.2kfsD7.2kftD1.2egxD1.2kgfD1.2kgdD1.2kgcD1.2kg1D1.2kg7D1.2kg9D1.2kfhD1.2kfiX2
Da.2l5qDa.2l60Da.2l6aDa.2l6kDa.2l6uVi4XfV5X1VfXuoVvX6V6X5xV7X1VhX2V7X1V2X1V5X5D9.2m0wD3.2m0v
Db.2m0uD1.2m0sD2.2m0rD1.1pz5D1.2lwyD1.2m0mD1.2m0lD1.2lwlD1.2ly8D1.2lxdD9.2m1tD2.2m1sD2.2m1qD1.2m1p
D6.2m1oD2.2m1nD1.2lzqD1.2m1eD1.2m1gD1.2m17D1.2lz4D1.1q1nD1.2lz0XxV1X34V19X3VeX2VaX4V2X8wVvXhV1mX5
V1XcwV16XkmV7X1V4X1V2X1VfX1V5hX2VgX15Uy.yV16X4VaX4V2XltV1wX24V1pX5eD2.2od5D1.2od2D1.2od0X1D1.2ocd
D1.2od0D1.2od6D1.2ocxD1.2ocfD4.2ocnD1.2od7D1.2od2D1.2ocvD1.2od8D1.2ocwD1.2odeD1.2odcD2.2odnD1.2odl
D1.2odkD1.2odfD1.2odeD1.2oddD1.2obyD1.2o9vD1.2oalD1.2oc0X1D1.2oe1D1.2odyX1D1.2od9X2D1.2oe2X1
D1.2odbD4.2odjD1.2oe3D1.2odyD1.2odrD1.2oe4D1.2odsX1D1.2oe8D2.2oejD1.2oehX1D1.2oebX1D1.2oe9X6
D1.2oeuX4D1.2oeyX1D1.2oe7X1D1.2oefX1D1.2oefD1.2oezD1.2oeuX1D1.2of0D1.2oeoX1D1.2of4X2D1.2ofdX1
D1.2of7X1D1.2of5X1D1.2obnX1D1.2odsX1D1.2oftD1.2ofqX1D1.2of1X2D1.2ofuD1.2oflD1.2of3D1.2ofbX1D2.2ofb
D1.2ofvD1.2ofqD1.2ofjD1.2ofwD1.2ofkX1D1.2og0D2.2ogbD1.2og9X1D1.2og3D1.2og2D1.2og1D1.2oemX1D1.2od9
X1D2.2ogpD1.2ogmD1.2ogkD2.2ofxD1.2ogkD1.2ogqD1.2oghD1.2ofzX1D3.2og7D1.2ogrD1.2ogmD1.2ogfD1.2ogs
D1.2oggD1.2ogyD1.2ogwD2.2oh7D1.2oh5D1.2oh4D1.2ogzD1.2ogyD1.2ogxX5D1.2ohlD1.2ohiD1.2ohgX1D1.2ogt
D1.2ohgD1.2ohmD1.2ohdD1.2ogvX1D3.2oh3D1.2ohnD1.2ohiD1.2ohbD1.2ohoD1.2ohcD1.2ohuD1.2ohsD2.2oi3
D1.2oi1D1.2oi0D1.2ohvD1.2ohuD1.2ohtX1gV2X7iV18X4V2sXcVfX2VfX1VfX1V11XbS1.1c.18S1.1d.18S1.1e.18
S1.1f.18S1.1g.18S1.1h.18S1.1i.18S1.1j.18S1.1k.18S1.1l.18V5S1.14.2p.15S1.14.2q.15S1.14.2r.15
S1.14.2s.15S1.14.2t.15S1.14.2u.15S1.14.2v.15S1.14.2w.15S1.14.2x.15S1.14.2y.15S1.14.2z.15
S1.14.30.15S1.14.31.15S1.14.32.15S1.14.33.15S1.14.34.15S1.14.35.15S1.14.36.15S1.14.37.15
S1.14.38.15S1.14.39.15S1.14.3a.15S1.14.3b.15S1.14.3c.15S1.14.3d.15S1.14.3e.15S1.9hw.37.9hxD1.2q4o
D1.2q4aS1.2r.2sS1.3b.3eV1Dq.2q4vS1.2w.3aS1.31.3aS1.37.2sS1.37.37S1.34.34.3aS1.3b.2rVqS1.31.2r
S1.31.2sS1.31.36VzS1.2s.2yVtX1kVqS1.9kr.9jfS1.9mb.9mbD1.2gr1XdD1.26ytD1.28caD1.29tyD1.2gr0D1.2avc
D1.28sbD1.1z5fD1.28ryD1.2ausD1.267tD1.241lD1.26bmD1.2a4vD1.27ipD1.2aa9D1.26b3D1.2a6bD1.21njD1.239f
D1.1ym2D1.28twD1.29rgD1.24giD1.26xeD1.26s3D1.2aztD1.2azlD1.1xwhD1.27uuD1.2ayoD1.29tnD1.26ugD1.1ygw
D1.26ziD1.22epD1.227tD1.29t8D1.24l1D1.2625D1.2627D1.239hD1.2a4nD1.29hgD1.1xpqX4S1.9hw.kdo.9hx
S1.9hw.fex.9hxS1.9hw.fik.9hxS1.9hw.i2x.9hxS1.9hw.m9l.9hxS1.9hw.jf7.9hxS1.9hw.nh3.9hxS1.9hw.gd9.9hx
S1.9hw.k0n.9hxX7D1.27jtD1.29uqXeV6X4aVrcX4VhX3VdX3V3bX4V2nX6VcX4V1XfVcX4V1kX8VaX6V14X8VuX2V2X26V9g
XcVeX2VdX3V9X7V1aX1V7X8VeX4V9X7V9X7V43X1V1jX11Da.2saoXsmVwyoXwV37eX6V66X2V4g2XeV5rlXfVhaX1wi
D1.3qo3D1.3qo9D1.3qo1D1.1crlD1.3qg4D1.3qdzD1.3qdnD1.3qbpD1.3q8eD1.3q7kD1.3q5fD1.3q64D1.3vqmD1.1brn
D1.3q2pD1.3q2jD1.3q24D1.3q1mD1.1bzqD1.3vq2D1.3q25D1.3q14D1.1byjD1.3q0wD1.3q0kD1.3qktD1.3q0eD1.3q06
D1.k71D1.3pygD1.3py3D1.3vpcD1.3pwlD1.3pwbD1.3pv4D1.3pv0D1.3vnzD1.3psuD1.3pstD1.3ps3D1.3priD2.3pr8
D1.3pqsD1.3ppfD1.3pp8D1.3pp0D1.3pocD1.3po3D1.3po2D1.3po3D1.3po4D1.1b0oD1.3jydD1.3pm4D1.3plkD1.1as5
D1.3plaD1.3pl5D1.3pklD1.3pgeD1.3pj9D1.3piuD1.3phzD1.3pgeD1.3pe3D1.3pdeD1.3pbkD1.3pb5D1.3pa9D1.3paa
D1.3p9qD1.3p99D1.3p92D1.3p8oD1.3oz9D1.3p6uD1.3ozaD1.3p4tD1.3p3vD1.3pzdD1.3ombD1.3oucD1.3otbD1.3osn
D1.3owaD1.3oroD1.3orqD1.3oocD1.18xhD1.3omgD1.3omcD1.3olyD1.3olfD1.3ol8D1.3ojhD1.18l4D1.18jbD1.3ofq
D1.3oegD1.3oe5D1.3ogdD1.3ocgD1.3vcpX1D1.3o81D1.3o6kD1.3o6lD1.17z8D1.3o2yD1.3o2eD1.3o20D1.3o1p
D1.17q1D1.3o1fD1.3o19X1D1.3o0jD1.3v91D1.3nyvD1.3nyiD1.3nw9D1.3nxpD1.176fD1.3nspD1.176fD1.3nrk
D1.3nroD1.3nr8D2.3nogD1.3v4kD1.3nnrD1.3nmlD1.3nm1D1.3nkuD1.3v3aD1.16h2D1.3v2mD1.3nizD1.3nixD1.3niv
D1.3nicD1.gsdD1.3ngyD1.165cD1.165dD1.3gk2D1.3ng2D1.3ng3D1.3v0vD1.1333D1.tryD1.3nefD1.3ne7D1.3v08
D1.3ncyD1.3nbkD1.3nbbD1.3naeD1.3n6nD1.3uxzD1.3uyuD1.3n67D1.15g0D1.3n4uD1.3n1aD1.3n17D1.3n16D1.3n19
D1.3n00D1.3mzhD1.3myiD1.3myxD1.3mynD1.3mxdD1.3mwuD1.3mwrD1.3mw2D1.3mvsD1.3mtzD1.3mroD1.3mqqD1.3mnb
D1.14mkD1.3mnwD1.3mpqD1.3mmrD1.3mm1D1.3mjdD1.14gdD1.3mhpD1.3mkbD1.3ml4D1.3us4D1.3mfuD1.3mfaD1.3meg
D1.3mfjD1.3uqjD1.3m9lD1.3m8tD1.13nkD1.3m5kD1.3lxwD1.3m2sD1.3ulxD1.3m0uD1.3umgD1.3unhD1.3q68D1.3q66
D1.3lxwD1.3m0pD1.3gvdD1.3svyD1.3lxdD1.3lxaD1.3lx5D1.3lvhD1.3lvtD1.12xmD1.3ul1D1.3lr9D1.3lujD1.3lov
D1.3lnhD1.12t2D1.3lnaD1.3lqeD1.3ljmD1.3uiyD1.3lieD1.3lfqD1.3ldsD1.3l8jD1.12dlD1.3l76D1.3ufqD1.3l5a
D1.11zdD1.3l3xD1.3uecD1.3l35D1.3l1xD2.3l17D1.11m2D1.17fxD1.11j3D1.3kx8D1.116nD1.3ku5D1.3ktsD1.3kwn
D1.3krtD1.3kqqD1.3kp6D1.3kqpD1.3kpmD1.3kp8D1.3kowD1.1148D1.3kr7D1.3kk9D1.3kijD1.3u8nD1.3kg0D1.3kg5
D1.10scD1.3klxD1.3kblD1.10oiD1.10n7D1.3k98D1.3k62D1.3k6uD1.3k6yD1.3u68D1.3k5pD1.3k4bD1.3k4iD1.3k31
D1.1c6uD1.3jyvD1.103eD1.3jwiX1D1.3jsoD1.3jscD1.3jrmD1.zdnD1.3jqcD1.3jpsD1.z5dD1.yz7D1.3jjiD1.3jj2
D1.3tz2D1.3jieD1.3tysD1.3tytD1.3jdzD1.3jdfD1.3jcvD1.3jccD1.3jagD1.3tw8D1.3j80D1.y67D1.3j7cD1.y3p
D1.3j60D1.16l6D1.3j1mD1.xi2D1.xhgD1.xdlD1.3tqaD1.3tpzD1.3ivgD1.x8uD1.x8wD1.x7uD1.x75D2.3iufD1.3iug
D1.3itaD1.3towD1.3irjD1.3tolD1.3tmeD1.wmoD1.3im8D1.3ikjD1.3iisD1.3tkeD1.w8cD1.3if1D1.w56D1.w40
D1.3idjD1.3ib0D1.3tihD1.3i8pD1.3i8gD1.3i8cD1.vkwD1.vcmD1.vcnX1D1.3tcuD1.v5iD1.3hy4D1.3hy2D1.3tbx
D1.uzpD1.3hqsD1.3t8nD1.3hq8D1.3hqeD1.3hpmD1.uedD1.3hmxD1.3t64D1.3hk7D1.3hilD1.3hgrD1.3t4tD1.tvu
D1.tv0D1.3t3vD1.tr0D1.3h8cD1.to9D1.3h7nD1.3h4vD1.3h4lD1.tcxD1.taxD1.3h25D1.t7aD1.3h1rD1.134x
D1.3t0sD1.3h00D1.3gxsD1.3szdD1.3gw7D1.3oi9D1.stcD1.sszD1.133qD1.133iD1.3gqyD1.3gqwD1.3e27D1.3swz
D1.3gn2D1.3gn9D1.3gmsD1.3q3jD1.3gmaD1.3gm9D1.3gm0D1.3gkwD1.s4bD1.3gkzD1.3gjgD1.3ghjD1.3gfiD1.3gjd
D1.3gf4D1.3gdzD1.3gawD1.3gi5D1.3gevD1.3geuD1.3gefD1.rxqD1.rp6D1.rtdD1.3sscD1.3g6vD1.3g6uD1.3g5w
D1.qg1D1.3g3sD1.rcxD1.3sr5D1.3sr2D1.r9bD1.r1bD1.3sqvD1.3fxfD1.3fx4D1.3fwuD1.3fwtD1.3fv2D1.3fw0
D1.3fsbD1.3ftkD1.3fpeD1.3froD1.3fpuD1.3fp4X1D1.3fmnD1.3flsD1.3sndD1.3fj7D1.3fj5D1.py6D1.3ffz
D1.3fftD1.3slvD1.3ff3D1.3w27D1.pi5D1.pd2D1.3si7D1.3shzD1.3f3jD1.3f1fD1.3ex3D1.3erhD1.oq3D1.3ep5
D1.3eokD1.3em3D1.3ejkD1.o89D1.1brpD1.3ehbD1.3ehrD1.3egcD1.1blrD1.3ea2D1.3e7bD1.mxaD1.mwkD1.3dxq
D1.3dv6D1.3dubD1.mnrD1.3du3D1.3dm7D2.3dhtD1.3dkeD1.3d9uD1.3d93D1.lpvD1.3cyrD1.3ryyD1.3cxlD1.lfe
D1.3rwsD1.3cq8D1.3o02D1.3cnmD1.kohD1.kilD1.3rt6D1.3rszD1.3ciiD1.k4xD1.3rreD1.k13D1.3chfD1.3chg
D1.3cgnD1.jt7D1.3cbkD1.3ro0D1.3c9nD1.3c66D1.3c5gD1.3c3tD1.3rjuD1.iqhD1.3bw8D1.3bnvD1.3binD1.3rcv
D1.3rc1D1.3bfsD1.hmqD1.3rbtD1.hl9D1.hdxD1.habD1.3b6iD1.3r9cD1.3b4uD1.3b4qD1.3b4kD1.3b4bD1.3b45
D1.3b35D1.gm5X15uV3t7X5V38gXf9e8I6oX47bk"

/-- What becomes of a character of a domain, unless it is refused. -/
def mapDomainChar? (c : Char) : Option (List Char) :=
  let run := Text.runAt domainRuns c
  if run.kind = 'X' then none else if run.kind = 'I' then some [] else some (run.image c)

/-- What becomes of the characters of a domain, unless one of them is refused. -/
def mapDomain? (cs : List Char) : Option (List Char) := (cs.mapM mapDomainChar?).map List.flatten

end Amqp.Url
