set_option autoImplicit false

namespace Stencil.Pattern.Table

/-- Code points of each general category, as gaps and lengths in base 36. -/
def categories : List (String × String) := [
  ("lu",
    "BtpCtm16x010*q2010*62010*l111010311011122311123111101011102011121011307020*210*62010*720201210*s7111201310*3I1010
    3080601210111g18z0223010*a5020112BeBc010*f9010*p1110*52010*Ba2B1DC9B11050U2CdCIz06B622Iw010*C19010*Bb9785a78785b01
    0*287C03c3c3c4b3Ha040322220346010101323a150Bp0CWkBbBc0122010101310208210*Bc801040BHEl010*lj010*cDr010*53010*ta0101
    110*3401020103010*8141410*6131011305010*2o0XVvpBHxB3DszEca1e1611BX6BeEdlDBuvXK0vBBUopqpqpq01120212317qpq1132716r11
    3141036rpqp*4uoxo*3x0ESdx"),
  ("ll",
    "CppBm0B5n1710*q1110*61110*m2010122010203140203220201010201110203010212260202010*61110*71120103010*r162021104010*2
    1Bw1qFd0103032i0ry113210*a14102021BfBb10*g9010*p2010*41110*BbBcB4DC7B622V45CIi810D9B7Brc1xCu010*C01810*Bb1885a7878
    5a7878d2787878411603211832187a211Hm03130r04040218340Bh0CXvBb103110*24011155010*Bb11701040cB11050BHCz010*lj010*cDr0
    10*41210*u1710102010*34010201210*9505010*64010203010*4q030WtB6587C7VRk6c4BDlpBI5B3DszEba1e1611BXvBeDhlDBuvXK0vBBUi
    pq61hqpq310161aqp*7qrso15qo15qo15qo15qo1510BZ891j65CSvx"),
  ("lt", "Ml02020B20ICd78787c0f0Bb0"),
  ("lm",
    "T4h4be47010Dp050Na0Ge0Ek1Hh140v09030Eg0En0BIc0Dj0Pp0BWq0Cz0Qz0Mw5EuBqd0yB0T50d0gcDGf1Gp0Fb0N10B7450Cp1Cl2BEJy0BIq
    5Hi0D60s1Dd8C80n0Cx231N10m0Dt0D00l1Cv390WZi0B91CE051B518BNn0w0ZR43O42B41PacBs110RNg31611NEpBpFl6BA50BF30"),
  ("lo",
    "Eq0f0H4043Fs0Wzq43B9v19z11Cq10o1a220g01ttCgb0owllB6o7a5n15hB4BnBh30i079ge47212l16103330g0d112e1a085412l1611*2v310
    j2g8121l16111430i0f1n0b7212l16111430u112f0h015321331101131323bm0Bg7121m1f30q22021u047121m191430v111f1h8121B420g052
    82o55h3n181026BmBb11c5Bn110141n1019119024n3w0Br71zr4D7B6k0g5433031724cc0D5J4132610132B4132w132610132e1Bk132BuB1fD5
    R72g1p5C2677hdiehec12fBfB40Bvy1Bg742x105BxauBdt24bB74pBim9BgEwBah7Bitd1aB7qzB52atD53151130BE23DH3Bjom9616*6Pb0Bh04
    Cd801Ch405B61ClhvBcfO8HB3BsWLo1BFqBvB38Hf4fa1Bu0BdBxEp0Cv03612131mtBfeBdBq53011bramps7BaB9428a41B4n217kf15303Bd103
    1242010o13a70e525259616E1ytLYbcm4BcJAsK52CxBv0191c141011111CzxK2iBr2BhB4bD841DqCx91B82u35252522zb1p1i111e2dyDeKts3
    BcBbvdj176B1at2z47DkC5CqB38BfCkBfcIm9la7E85201B711302mam9uBti11alapByBj61Bs0f3121sB6s3sz71rrBhalaidhD2C0F3zB2310Ig
    B561g2Bnsa08lB6hBakrmcBgBl120dB8woqzt0208y30cBbe3l010zh1oj1Br610131e197BaB27212l16111430i0c4u910201B110p010B8Bgi3k
    2uBbk110F4BaB53B0Bbk0BnB6d0BzqB16F5B7Fv72027111nf010Cm72B2g010s0aB370l0bB9j0iC0Fjwv81B0h0BdtD46111B1l0p5111ve0J3if
    01c1xDg0C7ZlGeFfCV8CofBDrh5pEGy5Q6HI1tBWyPs7uhC6htiBbBfk5iM3B3L9C250EvGOf8BIdB59JOnI2f0t220e38KzCM4Cy5c3879JKw0Nx
    B8x0IxtiB7NgqGdt20Nr613111e1FgBL731q11102019131010604010101211102010*311102316131310191g52141gESsBTQnwELd6G52GE1e
    HZkfR9CQiP1BPuFH65EMf"),
  ("mn",
    "VcD3Hn4HdB810111110C0aBckg0Ct6252113z0uqCjaBm890o3181214B72Bn8B6n1vBj010474036a1t0Bm04380k1q021Bl041412230u130b1
    Bl0441140k1m510Bm020138071b1u0Bp0c0Be030Bj012521371b1t0Bm0206051k1s1Bl14380k1t0C007210Ci026c7Cq028b6C11r01010Bjd14
    115a1z90Cu3151121p142g3d02160f0Tj2BAa2t1u1u1Bs116802a90B9210D91y0Da2419062G3120Bm0161010276920Bcd1fBd3Bc0141050B48
    c1w32112Bk0113012Bm721E821c16406031FiBrU0c403bDHa2Dx0CovPe3Cz1BGFw049w1C81Hk03040p150E71qhd0B27paBa2Bc02321B30Bv52
    121c080Bb0Bf012215110B6180Gm02040VR40UhfgfBB10Ga0E54BUe21153B4240El1Px3Bt4It1C73ByaBd3Df0BieB5021a2Bd32170Bp2B0417
    Bq0c1Bg8a320Cn220116020Ed037l1Bl130B1634By5d01010e1Cd72210n0Cc5104111Gm36111r1Cd72011Cy0102510Ct0102314H7811H41104
    0E032140w9B4523809522Bac11La61510Cal261111De530111610C013010Jn1b1Bg45010n0FSl06eMGgb32CRc4Bn6BD40Br3C90UZk1FApB92m
    P42h726u3E42CCzBi4Bd80e0m41eBLs61g261114Cs0Eg6Kf0Bp3O43H21Ug6D16BGORxGn"),
  ("mc",
    "CM30Bj0228311Be1Bm26121a0B70Bm2Bu0Bm28011Bh1Bm0106121a0Cu1113212a0B52Bp3Bp1Bm014211191s0e1Bm25212a0B61C3267i1J61
    Br0Er1406021p1a226l12520a2BU00u0Dl07711Jm3224115G81Bm010901185E10Bc0501411Bp0u04120Bo0221031Bc781Er0l0FGm1BGUz120
    Cg1BefDy1Bb0Bc14122D2121o0B9010D102150Gl1111110BBJn010Dj0B9241D70o1Bn0Bc291d0Cl23110Eq2v1Bm113212290a1Cc2702013111
    0Ct28130Cy2601320Gl26320D528110D101160Cv01140H9290Gv511402010Dy28340Cc0t1Bq0Lb0e0Cy07020Fx44110Jq1c0Bc18110SAo2DWk
    BiCw1BAQz165"),
  ("me", "BG81GBw0BRi312BKNn2"),
  ("nd",
    "Bc9BRq9Dq9Fi9Lg9Da9*8Co9Da9By9Hq9By9BZq9B29Ic9Dk9Em969F29Ce9Dq969BLRq9Su9B29Fi9m9Ce9La9WSu9BNa9CIm969W49Dk9Bo9E09
    Hq9Ji9Da9Ke9Cu96jC49Lq9Cu9Se9Ce9Gu9By9Lq9SA69CN29Ce9Dq9Ou9BACu9CZ0BdCNs9Lq9Ny9Gv9Xp9FC69"),
  ("nl", "GH22CW7y23DZ20p8e2BGLv9YS8BgMs080Dq4IUqD2"),
  ("no",
    "Ey15022CNh5Kg5Dc2Dp6G16h8M19BDxjBFn9Nc0BUt03569FifB50U6BnC6lRitBMh0BGk3Du9u71ew9B3eBGD45YHlB8Bt3h1JhqB03BL07p6B38
    C34m5Eg12f2B9Bs8Bg1u2C34Cw7o7B56J65JsuEe9B63D46DqjKjjBLh1Ly8Y7iXnkUR26W6mBBK9jcjD0oFVi8ZtBm1213C4B81eBAqc"),
  ("pc", "Cn0ISn1j0CIRq1o2Gn0"),
  ("pd", "B90BM40Bf0DXd0BCl0CF55DVl020v140s0Me0j0D30CEFs1B10a0Ep0DY80Iu0"),
  ("ps",
    "B40Be0v0EAu010CAe0CPi030B20Bj0f0Rm010u0BE6010*5C80w010*3L8010*9Bs010x0BDh010*2p0i010*2Lw010*33010*220CECp0Fz0t010
    *630h01010Eq0Be0v03020"),
  ("pe",
    "B50Bf0v0EAt010CAe0CQp0Bj0f0Rm010u0BE6010*5C80w010*3L8010*9Bs010x0BDh010*2B8010*2Lw010*33010*221CECm0G10t010*630h0
    1010Eq0Bf0v02020"),
  ("pi", "Er0IPg02120p0DU00104020f030"),
  ("pf", "F70IP1030s0DU00104020f030"),
  ("po",
    "x212201011a131r0Bw050e170Ti080My5B50Bi02020B81k111d012C23Cu0B7dGh2Biev0H91a0Dw0Dc0Dd0Ku0c0K70Ci0a1Eoe10D40C2441D3
    5Er0R08Vh0Dg2Bz1Ed212B1513Ip1G01Dk615Eg1a6s2Dg3Bn4Bq1Bs7b0X61878823223a1019DLm311D40Dz1422028111021a41923101c22Lw2
    Bl0F90BFSy1Hh2Cr0a0D75Kk3Ce1B4210Bd1Bb0Cpcg1Dg3Di1g1Gx0WM4620m0k1233213726011E5212201011a131r0B0021Le2Sk0Bc0Li0Un0
    Fj0v0Hk8B20D46Bu6Ch3BAg4B83F96D1113Di3Bc1C7340d012Cg5Cz0Ia111D64a110Cw0GymCx2scC40Dm2H00Hc2Eb0Ck7Cb214Cl9Fz0Cn4B61
    Rx1C2cEv0BFk4DDo1PZv1Dp0Bt480Pc2I73J30UZo0IEn4DDf0Xy1"),
  ("sm",
    "B70g2Bp010B9040B10v0Va0On2HEj0d0B32d2Dv0B3460Bw45140202070v12010vHfw1Ci0uoB45N1090Bi7D30Jc42uafH4DmmBq4v2H5Bck25
    CEW40Ww012Ek0g2Bp010Dn063DSx1CDAp0p0v0p0v0p0v0p0v0p0GIs1"),
  ("sc", "B00Dh3BIx0Df0Nu1*170Gt0Hb0Q50CQb0CKcwBLBb0XLv0D00Ea0G3131ITa3CBJi0CQw0"),
  ("sk", "Cm010Bz0604030Oh3cd56101gD90e1BJm0GJ0012b2d2d2d1EO41BGJvm91Cv1BB40e1VYugYr010Ei0COTr4"),
  ("so",
    "Em0204010BB50He1Dj1Fq0a0j1Gv0Ob0Kd0Dm510Do0Fr0B50Kv2f01225k01010Dp7151153Fh1Uw9U30U20EdxJt998BN711311a0116510*240
    b1e01110Bm194231111161u21101uHg74j262C81tpB36BzmaC9C5mF2181Bh8D21GvB8B7BsH3O8Bbl16B22v1CwGd5Jx1Bap1CgcFxqf40d1c0l1
    61Jc149wB190gubt80fvaB2fIvHB4BrXRkBiY13a110Px2WQmfDj0B92Ng03041d1Ip8Blg221c30BbB8BU21Qf0DKm0CJ174gUPe350WGe0EFfGng
    M3EcD7BoGtaB22Bn52m17t4BolBt30F6CeBH5O7Bj3Be71d11BW80DCs0Dl0U1B74Crce2e1e1B0nEgBksdB74871e5EaGy5U74g3c3Da4Cm6b40fb
    4Bj896B38t2b41BqJfcd2c395Bj7e2a687E21Cj"),
  ("zs", "w0Dj0FZj0CPjaB00Bb0EH40"),
  ("zl", "IUo0"),
  ("zp", "IUp0"),
  ("cc", "0vCnw"),
  ("cf", "Et0BLu5m0Fc0Bd0Ko1C80EDv0CEs4q4Bd419CIWn0Gx2EP50f0JRmfBLHs3FRz7BGUY60uCn"),
  ("co", "CJGwGVrBLUE0CSAd2CSAd")]

end Stencil.Pattern.Table
