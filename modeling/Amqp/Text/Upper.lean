import Amqp.Text.Runs

/-!
# Upper case

The upper-case text of every letter that has one. A small letter without a single counterpart
becomes two or three characters; all characters but small letters stay.
-/

namespace Amqp.Text

/-- What becomes of each character: `V` stays, `U` and `D` are so many places further up or down,
in `F` every other one follows its counterpart, and `S` becomes the characters that are listed. -/
def upperRuns : Array Run := runsOf "
V2pDq.wV1mU1.knV15S1.2b.2bDn.wV1D7.wU1.3dV1F1cD1.6gV1F6V1FeD1.1S1.jg.26V1F1aV1F4D1.1D1.8cU1.5fV2F4
V1D1.1V3D1.1V5D1.1V2U1.2pV3D1.1U1.4jU1.wu9V2U1.3mV2F6V1D1.1V4D1.1V2D1.1V3F4V1D1.1V3D1.1V1U1.1kV5
D1.1D1.2V1D1.1D1.2V1D1.1D1.2V1FeD1.1D1.27V1FgD1.1S1.22.loV1D1.1D1.2V1D1.1V3F14V2FiV7D1.1V2U2.8cfV1
D1.1V4F8D1.1U1.8bjU1.8bgU1.8biD1.5uD1.5qV1D2.5pV1D1.5mV1D1.5nU1.wnjV3D1.5pU1.wnfV1D1.5rU1.wo7
U1.wmgU1.wn8V1D1.5tD1.5vU1.wn8U1.8afU1.wn5V2D1.5vV1U1.8alD1.5xV2D1.5yV7U1.89zV2D1.62V1U1.wn7D1.62
V3U1.wmiD1.62D1.1xD2.61D1.1zV5D1.63VaU1.wlxU1.wluV4mU1.2cV17F4V2D1.1V3U3.3mViS1.pl.lk.ldVrD1.12
D3.11S1.px.lk.ldDh.wD1.vD9.wD1.1sD2.1rV1D1.1qD1.1lV3D1.1bD1.1iD1.8V1FmD1.1D1.2eD1.28U1.7D1.38V1
D1.2oV2D1.1V2D1.1V1gDw.wDg.28V1FyV8F1iV1FcD1.1D1.fV1F2oV1cD12.1cS1.111.11uV288U17.2bkV2U3.2bkVl4
D6.8V1oiD1.4tqD1.4tpD1.4tgD2.4teD1.4tfD1.4t8D1.4rpU1.r7mV1D1.1V6mU1.r9gV3U1.2xyVgU1.rawV36F44D1.1
S1.20.mpS1.2c.lkS1.2f.lmS1.2h.lmS1.1t.jiD1.1nV5F2mD1.1U8.8V8U6.8VaU8.8V8U8.8V8U6.8VaS1.px.lvU1.8
S1.px.lv.lcU1.8S1.px.lv.ldU1.8S1.px.lv.n6U1.8V8U8.8V8U2.22U4.2eU2.2sU2.3kU2.34U2.3iV2S1.64o.pl
S1.64p.plS1.64q.plS1.64r.plS1.64s.plS1.64t.plS1.64u.plS1.64v.plS1.64o.plS1.64p.plS1.64q.pl
S1.64r.plS1.64s.plS1.64t.plS1.64u.plS1.64v.plS1.65k.plS1.65l.plS1.65m.plS1.65n.plS1.65o.pl
S1.65p.plS1.65q.plS1.65r.plS1.65k.plS1.65l.plS1.65m.plS1.65n.plS1.65o.plS1.65p.plS1.65q.pl
S1.65r.plS1.67c.plS1.67d.plS1.67e.plS1.67f.plS1.67g.plS1.67h.plS1.67i.plS1.67j.plS1.67c.pl
S1.67d.plS1.67e.plS1.67f.plS1.67g.plS1.67h.plS1.67i.plS1.67j.plU2.8S1.69m.plS1.pd.plS1.p2.plV1
S1.pd.n6S1.pd.n6.plV4S1.pd.plV1D1.5k5V3S1.6a2.plS1.pj.plS1.p5.plV1S1.pj.n6S1.pj.n6.plV4S1.pj.plV3
U2.8S1.pl.lk.lcS1.pl.lk.ldV2S1.pl.n6S1.pl.lk.n6V8U2.8S1.px.lk.lcS1.px.lk.ldS1.pt.lvU1.7S1.px.n6
S1.px.lk.n6VaS1.6be.plS1.q1.plS1.pb.plV1S1.q1.n6S1.q1.n6.plV4S1.q1.plV9dD1.sVxDg.gV4D1.1VnfDq.q
V1fqD1c.1cV1D1.1V3D1.8bvD1.8bsV1F6V5D1.1V2D1.1VaF2sV7F4V3D1.1VcD12.5lsV1D1.5lsV5D1.5lsVnwzF1aViFs
V3qFeV2F1qV9F4V1FaV3D1.1V4D1.1V1D1.1U1.1cV2FkVaFgV3F4V1D1.1V3D1.1V5F6VpD1.1VnwD1.psVsD28.tzkVfnk
S1.1y.1yS1.1y.21S1.1y.24S1.1y.1y.21S1.1y.1y.24S1.2b.2cS1.2b.2cVcS1.11g.11iS1.11g.111S1.11g.117
S1.11q.11iS1.11g.119VtlDq.wVy5D14.14V3sD10.14V4bDb.13V1Df.13V1D7.13V1D2.13V1dvD1f.1sV3hDm.wV27u
Dw.wVgw0Dw.wVo82Dy.yV4ho"

/-- The upper-case characters of one character. -/
def upperChar (c : Char) : List Char := (runAt upperRuns c).image c

/-- The upper-case text. -/
def upper (s : String) : String := String.ofList (s.toList.flatMap upperChar)

end Amqp.Text
