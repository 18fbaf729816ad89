/-!
How code points take part in breaking a text into characters, words and sentences, as far as it does not follow from
other properties.
-/
set_option autoImplicit false

namespace Stencil.Pattern.Table

/-- Roles in breaking a text into characters, as gaps and lengths in base 36. -/
def graphemeBreaks : List (String × String) := [
  ("cr", "d0"),
  ("control cn", "09111hCnwd0BMm0EXl0CEs021o6BdfCIWn0GobOH8fBLHs3FRz7BGUY5vCoDjGoDVz"),
  ("l", "EQwCnBPOws"),
  ("lf", "a0"),
  ("lv", "BVB40r0*L1"),
  ("lvt", "BVB5q1q*L1"),
  ("prepend pp", "BQo5Fz0Bd0Ko1C80BFf0CSYu0f0Gs1Ol0BMl010Gw0C15Tg0Mb0"),
  ("regionalindicator ri", "FGEmp"),
  ("spacingmark sm",
    "CM30Bj0228311Be1Bn16121Bi0Bm2Bu0Bm28011Bh1Bo06121D60113212Bg2Bp3Bp1Bm02011Ba0e1Bn15212Bh1C4166j1Br0Dj0Du1Br0Ex091
    p1B80BZ507711Jm3224115G81Bm010l5E10Bl3Bs0u041Br02210Bh781Er0l0BMBn120Cg1BefDy0Bc0Bc14121D3121o0Ed02150Gl1111110
    BBJn010Dj0B9241D70o1Bn0Bc290e0Cl231Es2v1Bn0132121l1Cd1f011Cv28130Cz160111020Gm16320D528110D1011D2070H9290Gw4117010
    Dy28340Cc0t1Bq0Lb0e0Cy07020Fx44110Jq1c0Bc181SAq2DWkBi"),
  ("t", "EVkCfCCCjBc"),
  ("v", "ETkBzCCE8mBOXw033"),
  ("zwj", "ITx0")]

/-- Roles in breaking a text into words, as gaps and lengths in base 36. -/
def wordBreaks : List (String × String) := [
  ("aletter le",
    "Btp6pBb0a020105m1u1Nb6xD441123106012101j1Ca1Du8El1B123101B410Cw0B8B6z11Cq10f171a220f11ttCgb0ow91405l409030no7a5n1
    5hB5BmBh30i079ff47212l16103330g0d112e1a085412l1611*2v310j2g8121l16111430i0f1n0b7212l16111430u112f0h015321331101131
    323bm0Bg7121m1f30q22021u047121m191430v111f1h8121B420g05282o55h3n181026Ip0Br71zr4HnB110502B61J8132610132B4132w13261
    0132e1Bk132BuB1fgCd253R72g1p5C23a7hdiehec12EvCg742x105BxauG9mGmBah7Bitd1aB7qzB52az2a5B622B531511305FbBsHp252B12527
    10*21u2Bg1610321633254c5216D80d0gcCt040291034601010131a235440hB4WlBfBYeGc6331cB110502Bj70gm9616*6C80N10Bh1FkB61Clh
    vBEE0BGcBvB92Hg3fa1kBagu2C7oFh211017lf12131mtBfeBdBq53011bramps7Bas0BcB4n217E4a72c5252596161Bl6D6tLYbcm4BcJP06c4Bk
    CpxK2iBr2BhB4bD841DqB0p6pBxu35252522zb1p1i111e2dyDeBxBgHfs3BcBbvdt5B1at2z4714B6Ediz4z4B38Bfca1e16111a1e16113BfcIm9
    la7o51B518Bx5201B711302mam9uBti11alapByBj61Bs0f3121sB6s3sz71rrBhalaidhD2C0BjBedBedzB2r9mGyB561g2Bnsa08lB6hBakrmcBg
    Bl120dB8woqzt0208y30cBbe3l010zh1oj1Br610131e197BaB27212l16111430i0c4u910201B110p010B8Bgi3k2uBbk110F4BaB53B0Bbk0Bn
    B6d0J3B7D8Brv72027111nf010Cm72B2g010s0aB370l0bB9j0iC0Fjwv81B0h0BdtD46111B1l0p5111ve0J3if01c1xDg0C7ZlCuD2hFfCV8Cof
    BDrh5pEGy5Q6HI1tBWyPs7uhC6htiBbg3vk5iM0B8FvBrDkC250BucBs110UV8Cy5c3879GKeCc1By112021231b10161Bs1327161r131410361Jf
    2o1o1u1o1u1o1u1o1u1o17BZ8u65H9BpE2B8a6g0IxtiB7NgrGct20Nr613111e1FgBnBv70BHg31q11102019131010604010101211102010*311
    102316131310191g52141gRgp6p6p"),
  ("cr", "d0"),
  ("doublequote dq", "y0"),
  ("extendnumlet ex", "Cn0IS70f1j0CIRq1o2Gn0"),
  ("format fo", "Et0BMm0EXl0CEv1q4Bd419CIWn0Gx2OH8fBLHs3FRz7BGUY60"),
  ("hebrewletter hl", "BPcq43CPBe0191c1410111119"),
  ("katakana ka", "NEp4Ct13Ci13GofFsBa1CfCDV2BjBWFu3161110Hz2Be0e3"),
  ("lf", "a0"),
  ("midletter ml", "Bm0Dg0Tz0N30E40HEa0CIS30Bt0Fg0"),
  ("midnum mn", "B80e0X60Oi0Dm1Cm0Kz0GQr0CISz030F30e0"),
  ("midnumlet mb", "Ba0ISx1a0CITx0F0060"),
  ("newline nl", "b1Dc0IQy1"),
  ("numeric nu",
    "Bc9BP25Ci910D50i9Fi9Fi1C80Dn9Da9*8Co9Da9By9Hq9By9BZq9B29Ic9DkaEl969F29Ce9Dq969BLRq9Su9B29Fi9m9Ce9La9WSu9BNa9CIm96
    9W49C50f0y9Bo9E09Hq9Ji9Da9Ke9Cu96jC49Lq9Cu9Se9Ce9Gu9By9Lq9SA69CN29Ce9Dq9Ou9BACu9CZ0BdCNs9Lq9Ny9Gv9Xp9FC69"),
  ("regionalindicator ri", "FGEmp"),
  ("singlequote sq", "B30"),
  ("wsegspace", "w0GD30CPj612Cc0EH40"),
  ("zwj", "ITx0")]

/-- Roles in breaking a text into sentences, as gaps and lengths in base 36. -/
def sentenceBreaks : List (String × String) := [
  ("aterm at", "Ba0IT90CITx0F70"),
  ("cr", "d0"),
  ("close cl",
    "y042Bd010t010B90f0DZ23CAd1CPf7p1a1Bi1e1Rl3t1BDs57dC71v9L7lBr3w1BCide129o0i7Lv92712CECm1Fz1sf21g5Ep1Bd010t0101111
    CPOy2"),
  ("format fo", "Et0BMm0Gq0EQu0CEs021q4Bd419CIWn0Gx2OH8fBLHs3FRz7BGUY60"),
  ("lf", "a0"),
  ("scontinue sc", "B81c1X60Na0Eu1Nm0EK1050CF61EJ80CEJa111s1t12120a0Eo1c1C00"),
  ("sterm st",
    "x0t0BLl0E32F00B72Gu0Bp01031I51BX01Vy041Vh0Fi1Ed1B9050Iq1Ju3Ei1a121t2F71Bt1BAk192DM72Ii0d0m1Lx0BFZw0Hi1Gb030Km1Ce1
    Cn0E81E32E01Gx0WM6021Br1Ep0t0Bt0CZw1BJh4B83F91D93Dj2Dl160g1Cg111D00Ia1D91Kd15eCx1Gx2Od010Gz1Cf1Lo1T81C21UOh1Dp0Bt1
    b0Pd1I80VIu0IEo0"),
  ("sep se", "Dp0IQy1"),
  ("sp", "9011j0Dj0FZj0CPjaB00Bb0EH40")]

end Stencil.Pattern.Table
