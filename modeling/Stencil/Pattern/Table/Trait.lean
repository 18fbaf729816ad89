set_option autoImplicit false

namespace Stencil.Pattern.Table

/-- Names of each property and the code points that have it, as gaps and lengths in base 36. -/
def traits : List (String × String) := [
  ("asciihexdigit ahex", "Bc975q5"),
  ("bidicontrol bidic", "BRg0HCh1q4Bj3"),
  ("bidimirrored bidim",
    "B41i010s010t010B90f0DZ23CAd1CQc1a1Bi1e1Ex0Fc33530313313101048501h539110171v2350912i5194214n2f83k171BE5dC202311125
    3523dL7l251d807530441124401221a521ci13201020135162o1b14311214B6271B350103452403410H40Ob33111e129B77Lv927CEKl551Ei1
    i010s010t0101111CGY70Bl0*3"),
  ("changeswhencasefolded cwcf",
    "BtpCi0am17w010*q2010*61110*l1110*21110111223111231111010111020111210113071111110*72010*721101210*s7111201310*3Gu0
    B60103080601210111g18m0c23110*b112110112BeBc010*f9010*p1110*52010*Ba2B1Bc0DAwB11050Wi5CIi96B622Iw010*C1512010*Bb97
    85a78785b010*287gBb22255225b3c45225I903160B9fj0WqpBZ4BbBc0122010101310208210*Bc801040BHEl010*lj010*cDr010*53010*ta
    0101110*3401020103010*8141410*6131011305010*2o0YqC7VRk6c4BCppBHxB3DszEca1e1611BX6BeEdlDBuvXK0vBHO0x"),
  ("changeswhenlowercased cwl",
    "BtpCtm16x010*q2010*62010*l1110103110111223111231111010111020111210113071111110*72010*721101210*s7111201310*3I1010
    3080601210111g18z08010*a5020112BeBc010*f9010*p1110*52010*Ba2B1DC9B11050U2CdCIz06B622Iw010*C19010*Bb9785a78785b010
    *287o7878784b4b3c4b4I903160B9fj0WqpBZ4BbBc0122010101310208210*Bc801040BHEl010*lj010*cDr010*53010*ta0101110*3401020
    103010*8141410*6131011305010*2o0XVvpBHxB3DszEca1e1611BX6BeEdlDBuvXK0vBHO0x"),
  ("changeswhentitlecased cwt",
    "CppBm0B5n1710*r2010*51110*m2010122010203050203220201010204020301020301040111110*71110*71210103010*i3010*780211040
    10*2151110113113142011207020113550a1Em0B70103032i0ry113210*a14102020BgBb10*g9010*p2010*41110*BbBdB2DYo5CIi810Gm030
    g0D6010*C0165010*B91885a78785a7878d2787878411603211832187a211Ji0xf40XfpBZqBb103110*26020a010*Bc801040cB11050BHCz01
    0*lj010*cDr010*53010*ta0102010*34040112010*8b010*640102030501010q0Xw0sC7VRk6c4BDlpBI5B3DszEba1e1611BXvBeDhlDBuvXK0
    vBHO2x"),
  ("changeswhenuppercased cwu",
    "CppBm0B5n1710*r2010*51110*m2010122010203050203220201010204020301020301051111110*61110*71111103010*i3010*780211040
    10*2151110113113142011207020113550a1Em0B70103032i0ry113210*a14102020BgBb10*g9010*p2010*41110*BbBdB2DC8B622V45CIi81
    0Gm030g0D6010*C0165010*B91885a78785a7878d2Bg114010321140332187a21140Jd0xf40XfpBZqBb103110*26020a010*Bc801040cB1105
    0BHCz010*lj010*cDr010*53010*ta0102010*34040112010*8b010*640102030501010q0Xw0sC7VRk6c4BDlpBI5B3DszEba1e1611BXvBeDhl
    DBuvXK0vBHO2x"),
  ("dash", "B90BM40Bf0DXd0BCl0CF55Bp0B30f0Ku0DHg020v140s0Me0j0D30CEFs1B10a0Ep0DY80Iu0"),
  ("deprecated dep", "J50BKp0CM3010CG11CKd5Td1BLIQ60"),
  ("diacritic dia",
    "Cm010Bz0604021NzEe1755h14091H14Ft0BjB810111110Dn741Dq14132BvqCjaBmay1Di7B59grBp0g033s0C20g0D20g0D20g0Bb2Bo0g070Db
    0D20g0D20g0D11g0Dg0D30c510Cz0d4C31r0101041Bu211Bq0D4011B4144p610a1Tl2BAc1u0E4a90Jn2I40k720Bce2aCw0f0B28Bi1Bm0b1Bu1
    Bs5Cao406022BeBqBcz5bB1aMd012b2d2d2d1DO02It0O25Cx3Cn0BGD60c110s1Ca1exCu2D11c0B10E70rhBl3B00Cn0c0B00E52Bt3Bf0Cs492
    Dk1VR40VdfHi010Bb0B91Bv0V80BGv51B518Rp240El1Pv5B20q4L32ByaBd3Fc0B50C01Dc1Bq0C4092Cw1Ey1C81g0o634Ch211d1Cn030Df1Gz1
    Di0Da1D70Hh1H6140Ec0Cb0i0C90Lp0H6011C90Lt1n0FSseMGx0CRc4Bn6Po1P6gC81RN231611IMhB92mP42358726u3DZ6BpFe6Kf0Bp3Va1Ug6
    D1212"),
  ("emoji",
    "z06059D3040IQd0c0G00m0Ci5f1K71c0Em0pa42Fj0Gf1a090Bm314902021204020112030318250105bb1201110i021i5101131502141b1512
    0511011k155132040202510201010603060a1f02040104210b1Bc290e0e0Kc1Mv2j1Bf040BIi0c0Qp010ERVe0Fm0Eg1c1e029C3p11n0k028l1
    Eux2D321122Ca221Ha1Bqb51n7127c0232041d120819052c28220104060306CdBcBx57224930113029Gbb40HvBa191F4D4c395Bj7e2a68"),
  ("emojicomponent ecomp", "z06059ISb0Fx0CIMr0CORypO34BOg3BGJZ0Cn"),
  ("emojimodifier emod", "FGTf4"),
  ("emojimodifierbase ebase",
    "KL10G30g3EVYf0Bo22022D912ali3042127010o0Fl140l041Eu234Cb0g290b0Pz02087609922Bk0Bp11110h21cGd2B68"),
  ("emojipresentation epres",
    "JPm1Fp33020Oh1l1BebB70j0d081h1518050l0711040207041s0z0104210Bp2o0e0Xv1Bf040ETV20Fm0Fa029C3p10o0k02412l1Euwc81Bx1l
    cB644cg303By101F62Bqd31ni0q1d0CeCcBcBx60322243b178Gbb40HvBa191F4D4c395Bj7e2a68"),
  ("extendedpictographic extpict",
    "Ep040IQd0c0G00m0Ci5f1K71c0Cn0By0pa42Fj0Gf1a090Bm3151b1D5aD92a1010603060a1f02040104210b4B9290e0e0Kc1Mv2j1Bf040BIi0
    c0Qp010ERVaH3d2v0Bo5c1e029iBkrea0k028139M15It8HdBcDjD8bCdB6c3Bk7a5B47uC9cBa191M8H4BCd"),
  ("extender ext",
    "F30Ow1Ye0M90Ri0Dt0Ch0Uw0Dj0CNv0Bk0Qz0L20Bw0FIx0B74Cv1Cl2BEJy0BQe0BAq0m0Dt0D00l1XCr0CFc1BP70r040BHz0I50D81Nu2BI70
    WBl1BGs110BFA01BHd0Xo2"),
  ("graphemelink grlink",
    "CO50Dj0*6D11g0Dg0D30Dj0Fl0F01BWp1u0Ed0S50Gb0Ct1By1EUr0BHNa0B10E70Dy0D00Il0Gu0ZUp0BQu0B50e0Bl0Dd1Dv0D80F00Cq0Dk2D5
    0Dj0H00Dj0Da0D80Hh0H71Eh0Cb0i0C90Lp0H81C90Lt1SAs0"),
  ("hexdigit hex", "Bc975q5CRQx975q5"),
  ("hyphen", "B90Dj0BIk0FBf0CF51DVp0Uj0CEEn0Ep0Cf0"),
  ("idsbinaryoperator idsb", "NCw129Nt0"),
  ("idstrinaryoperator idst", "NCy1"),
  ("idsunaryoperator idsu", "NDa1"),
  ("idcompatmathcontinue", "Ey150IRi03a1eKb040m0EPKy0p0v0p0v0p0v0p0v0p0"),
  ("idcompatmathstart", "JHu040m0EPKy0p0v0p0v0p0v0p0v0p0"),
  ("ideographic ideo", "NDi1p8e2BAtHB3BsWL3YIwK52CxBGAa0rGOf8BIdB59JYvKzVBoBTQnwELd6G52GE1eHZkfR9CQiP1BPuFH65EMf"),
  ("joincontrol joinc", "ITw1"),
  ("logicalorderexception loe", "DXc4Df4CZs220BNQy12011"),
  ("modifiercombiningmark mcm", "BT0120Dn06031Nd11230v0"),
  ("noncharactercodepoint nchar", "CRKwvOm1CSAe1*f"),
  ("otheralphabetic oalpha",
    "Y3cQ0d10111110C0aBcc16g0Ct6432140z0ufCuaCt1381213Cy0Bob366jBi12e1152a1t2Bm62121a0a1t2Bm4412140u130b2Bm71211l1m242
    Bm6212191a1u0Bn43212a0B44Bl6121281b1t2Bm6121281b1f0c3Bm61212a0a1t2C351017i1Bp026i0Cr02511g0Eji9a1zD2b1023n34212263
    3db10a3BTw1u1*2BuiF81y0Dab48G64Bl92jC21b2Bd4BceBo2u821BlaBeiLgxEJ7vBGYk7y1Ju080n4Cg1Bef10Bl0B24sbB93BcbB10Bvdc081
    B92Be0122150B8450Gl7VR70CHb4BUe21153Vw3Bt0Ix1C70H72BhdB91b2B9890Bp2B0bi1Bl2Bcce1Ck8206020Ed9n3Bm62121a0a1Cc8102013
    11Cvc12CyhGl626t1Cae10CyaCvdH5cGv511213010Dy62540s9B6413iaBadLb716Cbl1dDe53011121030Bu41113Jo39110Bc632SAdgDWg01Bi
    73Cl1UZ80JRl61g261114Cs0CJz0"),
  ("otherdefaultignorablecodepoint odi", "Xj0DVz1BSz1CJr0EQu0CEKj0C78BJAFz01tCoDjGoDVz"),
  ("othergraphemeextend ogrext",
    "CRa0o0Jy0o0Cu0o0Gg010411191Cv0o0Db0f0CNh0u0BCg0501051Ct0Bz1BD40EKp1BHDf0D00XMl1EYw0D80Hc0e090Co090201250G80c0Gp0
    Ha0Rl0c0BQr0WBq1BAQz165BGUZ9Cn"),
  ("otheridcontinue oidc", "F30Tz0EIx8BTk0BS11EQd0CELt0"),
  ("otheridstart oids", "GSd1CIx0l0EFo1"),
  ("otherlowercase olower", "Eq0f0Nx871u4Co0Bg0DS10DInBqd0yB0T50d0gcFvfXkpCBu1BHKe1Fu0Dl231Y2390ZEu0221B518CHF9Bp"),
  ("othermath omath",
    "Cm0Yh220q121HS00r2b0w3o1e1Btc403144i04029103460312112153354C34231111101421414h2110161061I23Eo110o0h0Md1c854512134
    e01025o1Bl010t391Ji1v9L7lBr3w1CGCb01040Fv010CGExCc1By112021231b10161Bs1327161r131410361Jf2o1o1u1o1u1o1u1o1u1o172Bd
    GAg31q11102019131010604010101211102010*311102316131310191g52141g"),
  ("otheruppercase oupper", "JDcfXapEVXsp6p6p"),
  ("patternsyntax patsyn", "xea6q310q3y610111011404030n0v0IN4n8e2i19IhTzEgRhuBFfO8DjKp24of0CEC51H91"),
  ("patternwhitespace patws", "94i0Cs0IQ81o1"),
  ("prependedconcatenationmark pcm", "BQo5Fz0Bd0Ko1C80CUEa0f0"),
  ("quotationmark qmark", "y040Dn0f0IP07p1DVr0Mp3d2CEJt3F9040Ci1"),
  ("radical", "MSop1CgcFx"),
  ("regionalindicator ri", "FGEmp"),
  ("sentenceterminal sterm",
    "x0c0g0BLl0E32F00B72Gu0Bp01031I51BX01Vy041Vh0Fi1Ed1B9050Iq1Ju3Ei1a121t2F71Bt1Zw0n192DM72Ii0d0m1Lx0BFZw0Hi1Gb030Km1
    Ce1Cn0E81E32E01Gx0WM6021Bn031Ep0c0g0Bt0CZw1BJh4B83F91D93Dj2Dl160g1Cg111D00Ia1D91Kd15eCx1Gx2Od010Gz1Cf1Lo1T81C21UOh
    1Dp0Bt1b0Pd1I80VIu0IEo0"),
  ("softdotted sd", "Cx1Fg0Ht0u0Bg0k0Iw0Cq010GW10Bf0d030Do0Ed0Lp0Fy1DBm0ELWl1Be1*bCIm0Ih1q0"),
  ("terminalpunctuation term",
    "x0a010b130X2080O90Bl0C00e012F00B7a10Gj1Bi517v0H91BJ81Es045In1Vx7Vh0Dg2Bz1Ed230B3321Iq1Ju3Ei1a112t2F74Bq1Zw0n192
    DM72Ii0d040a01131Lw1BFZv1Hh2Gb4Km1Ce1Cn0E72E32Dj0g1Gx0WM6021Bl213Ep0a010b130Bt020BE20Bc0BG60Fj0Im1E85Bw5Ch3BAg4B83
    F96D43Dj2Dl160g1Cg4D00Ia1D92c1Jy33eCx1Gx2Od010Gz1Cf141Li2B90Rx1C21BKr4TDl1Dp0Bt2a0Pd1I71VIu0IEn3"),
  ("unifiedideograph uideo", "OFsHB3BsWL3YQe11011a0101122CTPyBTQnwELd6G52GE1eHZkfR9EVeFH65EMf"),
  ("variationselector vs", "GOz210CKX4fBJBAoGn"),
  ("whitespace wspace space", "94i0Cs0q0FZj0CPjat150Bb0EH40")]

end Stencil.Pattern.Table
